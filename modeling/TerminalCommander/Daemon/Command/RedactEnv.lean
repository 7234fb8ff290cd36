import TerminalCommander.Daemon.Command.Redact

/-!
# The environment of a shell session

`redact_env_pairs` of `daemon/src/command.rs`: every pair is written as `KEY=VALUE`, goes through the
token rules of `maskTokenInline`, and is cut again at the first equals sign. The rules for the
password of a URL and for the credential of a header come before the one that masks the value of a
secret key. Each of them masks a part of the value and keeps the rest.
-/

namespace TerminalCommander

open List Option Text

def redactEnvPair (pair : Text × Text) : Text × Text :=
  ((maskTokenInline (pair.1 ++ '=' :: pair.2)).splitOnce '=').getD pair

def redactEnvPairs (env : List (Text × Text)) : List (Text × Text) := env.map redactEnvPair

def isEnvKey : Text → Bool
  | [] => false
  | c :: t => (c.isAlpha || c == '_') && t.all fun d => d.isAlphanum || d == '_'

def HasHeader (value : Text) : Prop :=
  "bearer ".toList <:+: value.toAsciiLowercase ∨ "authorization:".toList <:+: value.toAsciiLowercase

instance (value : Text) : Decidable (HasHeader value) :=
  inferInstanceAs (Decidable (_ ∨ _))

def maskEnvValue (key value : Text) : Text :=
  match maskUrlUserinfo value with
  | some masked => masked
  | none =>
    if HasHeader value then maskHeaderCredential value
    else if envKeyIsSecret key.toAsciiLowercase then ARGV_HEAD_REDACTED
    else value

/-! ## Keys -/

theorem mem_of_isEnvKey {key : Text} (h : isEnvKey key) :
    ∀ c ∈ key, (c.isAlphanum || c == '_') := by
  cases key with
  | nil => cases h
  | cons c t =>
    rw [isEnvKey, Bool.and_eq_true, List.all_eq_true] at h
    intro d hd
    rcases mem_cons.mp hd with rfl | hd
    · show (d.isAlpha || d.isDigit || d == '_')
      rcases Bool.or_eq_true _ _ ▸ h.1 with ha | hu
      · rw [ha, Bool.true_or, Bool.true_or]
      · rw [hu, Bool.or_true]
    · exact h.2 d hd

theorem not_mem_of_isEnvKey {key : Text} (h : isEnvKey key) {c : Char}
    (hc : (c.isAlphanum || c == '_') = false) : c ∉ key := by
  intro hmem
  rw [mem_of_isEnvKey h c hmem] at hc
  cases hc

theorem head_of_isEnvKey {key : Text} (h : isEnvKey key) :
    ∃ c t, key = c :: t ∧ c.toLower ≠ '-' ∧ c ≠ '-' := by
  cases key with
  | nil => cases h
  | cons c t =>
    have hdash : '-' ∉ c :: t := not_mem_of_isEnvKey h (by decide)
    have hlower : '-' ∉ toAsciiLowercase (c :: t) := fun hmem =>
      hdash (mem_of_mem_toAsciiLowercase (by decide) hmem)
    refine ⟨c, t, rfl, fun heq => ?_, fun heq => ?_⟩
    · exact hlower (heq ▸ mem_cons_self)
    · exact hdash (heq ▸ mem_cons_self)

/-! ## The rules on a pair -/

theorem drop_pair (key value : Text) (i : Nat) :
    (key ++ '=' :: value).drop (i + (key.length + 1)) = value.drop i := by
  rw [show key ++ '=' :: value = (key ++ ['=']) ++ value by simp, Nat.add_comm,
    ← length_singleton (a := '='), ← length_append, drop_length_add_append]

theorem take_pair (key value : Text) (i : Nat) :
    (key ++ '=' :: value).take (i + (key.length + 1)) = key ++ '=' :: value.take i := by
  rw [show key ++ '=' :: value = (key ++ ['=']) ++ value by simp, Nat.add_comm,
    ← length_singleton (a := '='), ← length_append, take_length_add_append]
  simp

section
variable {key : Text} (hkey : isEnvKey key = true) (value : Text)
include hkey

theorem find_pair {p : Text} {d : Char} (hsep : '=' ∉ p) (hd : d ∈ p)
    (hnot : (d.isAlphanum || d == '_') = false) :
    find p (key ++ '=' :: value) = (find p value).map (· + (key.length + 1)) :=
  find_behind hsep hd value (not_mem_of_isEnvKey hkey hnot)

theorem find_pair_lower {p : Text} {d : Char} (hsep : '=' ∉ p) (hd : d ∈ p)
    (hlow : d.isLower = false) (hnot : (d.isAlphanum || d == '_') = false) :
    find p (toAsciiLowercase (key ++ '=' :: value)) =
      (find p value.toAsciiLowercase).map (· + (key.length + 1)) := by
  have hsplit : toAsciiLowercase (key ++ '=' :: value) =
      key.toAsciiLowercase ++ '=' :: value.toAsciiLowercase := by
    unfold toAsciiLowercase
    rw [map_append, map_cons]
    rfl
  have hlen : key.toAsciiLowercase.length = key.length := length_map _
  rw [hsplit, find_behind hsep hd _ fun hmem =>
    not_mem_of_isEnvKey hkey hnot (mem_of_mem_toAsciiLowercase hlow hmem), hlen]

theorem find_bearer_pair : find "bearer ".toList
    (toAsciiLowercase (key ++ '=' :: value)) =
    (find "bearer ".toList value.toAsciiLowercase).map (· + (key.length + 1)) :=
  find_pair_lower hkey value (d := ' ') (by decide) (by decide) (by decide) (by decide)

theorem find_authorization_pair :
    find "authorization:".toList (toAsciiLowercase (key ++ '=' :: value)) =
      (find "authorization:".toList value.toAsciiLowercase).map (· + (key.length + 1)) :=
  find_pair_lower hkey value (d := ':') (by decide) (by decide) (by decide) (by decide)

theorem hasHeader_pair : HasHeader (key ++ '=' :: value) ↔ HasHeader value := by
  unfold HasHeader
  rw [← find_isSome_iff, ← find_isSome_iff, ← find_isSome_iff,
    ← find_isSome_iff, find_bearer_pair hkey, find_authorization_pair hkey,
    isSome_map, isSome_map]

theorem maskHeaderCredential_pair (hhead : HasHeader value) :
    maskHeaderCredential (key ++ '=' :: value) = key ++ '=' :: maskHeaderCredential value := by
  unfold maskHeaderCredential
  simp only [find_bearer_pair hkey, find_authorization_pair hkey]
  cases hbearer : find "bearer ".toList value.toAsciiLowercase with
  | some pos =>
    simp only [map_some, Nat.add_right_comm pos _ 7, take_pair, append_assoc, cons_append]
  | none =>
    cases hauth : find "authorization:".toList value.toAsciiLowercase with
    | some pos =>
      simp only [map_none, map_some, Nat.add_right_comm pos _ 14, take_pair, drop_pair,
        append_assoc, cons_append]
    | none =>
      have hsome := hhead.imp find_isSome_iff.mpr find_isSome_iff.mpr
      rw [hbearer, hauth] at hsome
      rcases hsome with h | h <;> cases h

theorem maskUrlUserinfo_pair :
    maskUrlUserinfo (key ++ '=' :: value) = (maskUrlUserinfo value).map (key ++ '=' :: ·) := by
  have hfind : find "://".toList (key ++ '=' :: value) = _ :=
    find_pair hkey value (d := ':') (by decide) (by decide) (by decide)
  unfold maskUrlUserinfo
  rw [hfind]
  cases find "://".toList value with
  | none => rfl
  | some pos =>
    simp only [map_some, bind_eq_bind, bind_some, Nat.add_right_comm pos _ 3, drop_pair]
    cases rfindChar (· == '@')
        ((value.drop (pos + 3)).takeWhile fun c => !"/?#".toList.contains c) with
    | none => rfl
    | some atSign =>
      simp only [bind_some]
      cases findChar (· == ':') (((value.drop (pos + 3)).takeWhile fun c =>
          !"/?#".toList.contains c).take atSign) with
      | none => rfl
      | some colon =>
        simp only [bind_some, Nat.add_right_comm (pos + 3) _ colon,
          Nat.add_right_comm (pos + 3 + colon) _ 1, Nat.add_right_comm (pos + 3) _ atSign, take_pair,
          drop_pair, append_assoc, cons_append, Option.pure_def, map_some]

theorem maskTokenInline_pair :
    maskTokenInline (key ++ '=' :: value) = key ++ '=' :: maskEnvValue key value := by
  obtain ⟨c, t, rfl, hlower, hdash⟩ := head_of_isEnvKey hkey
  -- every flag begins with a dash, and no key does
  have hnotFlag : ∀ flag : Text, flag.head? = some '-' →
      flag.isPrefixOf (toAsciiLowercase (c :: t ++ '=' :: value)) = false := by
    intro flag hflag
    rw [← Bool.not_eq_true, List.isPrefixOf_iff_prefix]
    rintro ⟨rest, hrest⟩
    cases flag with
    | nil => cases hflag
    | cons d flag =>
      rw [Option.some.inj hflag] at hrest
      exact hlower (List.cons.inj hrest).1.symm
  have hflags : SECRET_VALUE_FLAGS.find? (fun flag =>
      (flag ++ ['=']).isPrefixOf (toAsciiLowercase (c :: t ++ '=' :: value))) = none := by
    rw [find?_eq_none]
    intro flag hflag
    have hhead : ∀ f ∈ SECRET_VALUE_FLAGS, (f ++ ['=']).head? = some '-' := by decide +kernel
    rw [hnotFlag _ (hhead flag hflag)]
    exact Bool.false_ne_true
  have husers : (["--user=", "--proxy-user="].map String.toList).find? (fun flag =>
      flag.isPrefixOf (toAsciiLowercase (c :: t ++ '=' :: value)) &&
        ((c :: t ++ '=' :: value).drop flag.length).contains ':') = none := by
    rw [find?_eq_none]
    intro flag hflag
    have hhead : ∀ f ∈ ["--user=", "--proxy-user="].map String.toList, f.head? = some '-' := by
      decide +kernel
    rw [hnotFlag flag (hhead flag hflag)]
    exact Bool.false_ne_true
  have hshort : ∀ letter, attachedShort letter (c :: t ++ '=' :: value) = false := by
    intro letter
    have hone : "-".toList.isPrefixOf (c :: t ++ '=' :: value) = false := by
      rw [← Bool.not_eq_true, List.isPrefixOf_iff_prefix]
      rintro ⟨rest, hrest⟩
      exact hdash (List.cons.inj hrest).1.symm
    unfold attachedShort
    rw [hone]
    rfl
  have hequals : findChar (· == '=') (c :: t ++ '=' :: value) = some (c :: t).length := by
    unfold findChar
    rw [findIdx?_append, findIdx?_eq_none_iff.mpr]
    · rw [findIdx?_cons]
      simp
    · intro d hd
      rw [beq_eq_false_iff_ne]
      rintro rfl
      exact not_mem_of_isEnvKey hkey (by decide) hd
  have hheader : ("bearer ".toList <:+: toAsciiLowercase (c :: t ++ '=' :: value) ∨
      "authorization:".toList <:+: toAsciiLowercase (c :: t ++ '=' :: value)) ↔
        HasHeader value := hasHeader_pair hkey value
  unfold maskTokenInline maskEnvValue
  dsimp only
  rw [hflags, hshort, hshort, husers, hnotFlag "--header=".toList rfl, maskUrlUserinfo_pair hkey,
    hequals]
  cases maskUrlUserinfo value with
  | some masked => rfl
  | none =>
    by_cases h : HasHeader value
    · simp only [map_none, hheader, h, if_true, maskHeaderCredential_pair hkey value h,
        Bool.false_and, Bool.false_eq_true, if_false]
    · simp only [map_none, hheader, h, if_false, Bool.false_and, Bool.false_eq_true, take_left]
      have htake := take_pair (c :: t) value 0
      rw [Nat.zero_add, take_zero] at htake
      split_ifs
      · rw [htake, append_assoc]
        rfl
      · rfl

theorem redactEnvPair_eq : redactEnvPair (key, value) = (key, maskEnvValue key value) := by
  have hbef : ∀ d ∈ key, (d != '=') := by
    intro d hd
    rw [bne_iff_ne]
    rintro rfl
    exact not_mem_of_isEnvKey hkey (by decide) hd
  have hsplit : ∀ v : Text, splitOnce '=' (key ++ '=' :: v) = some (key, v) := by
    intro v
    unfold splitOnce
    rw [dropWhile_append_of_pos hbef, takeWhile_append_of_pos hbef]
    simp
  unfold redactEnvPair
  rw [maskTokenInline_pair hkey, hsplit]
  rfl

end

/-! ## Secret keys -/

def CarriesCredential (value : Text) : Prop :=
  (maskUrlUserinfo value).isSome = true ∨ HasHeader value

instance (value : Text) : Decidable (CarriesCredential value) :=
  inferInstanceAs (Decidable (_ ∨ _))

theorem colon_mem_of_maskUrlUserinfo {value masked : Text}
    (h : maskUrlUserinfo value = some masked) : ':' ∈ masked := by
  unfold maskUrlUserinfo at h
  simp only [bind_eq_bind, bind_eq_some_iff, Option.pure_def] at h
  obtain ⟨pos, hpos, atSign, -, colon, -, hmasked⟩ := h
  rw [← Option.some.inj hmasked]
  refine mem_append_left _ (mem_append_left _ ?_)
  -- the scheme mark stands before the position at which the mask begins
  obtain ⟨rest, hrest⟩ := Text.prefix_drop_of_find hpos
  rw [← take_append_drop pos value, ← hrest, take_append]
  refine mem_append_right _ (mem_take_iff_getElem.mpr ?_)
  refine ⟨0, ?_, rfl⟩
  have : (value.take pos).length ≤ pos := length_take_le _ _
  simp only [length_append]
  have hlen : "://".toList.length = 3 := rfl
  omega

theorem mark_mem_of_hasHeader {value : Text} (h : HasHeader value) :
    ' ' ∈ maskHeaderCredential value ∨ ':' ∈ maskHeaderCredential value := by
  have hkept : ∀ {p : Text} {d : Char} {pos : Nat}, find p value.toAsciiLowercase = some pos →
      d ∈ p → d.isLower = false → d ∈ value.take (pos + p.length) := by
    intro p d pos hpos hd hlow
    obtain ⟨rest, hrest⟩ := Text.prefix_drop_of_find hpos
    have htake : toAsciiLowercase (value.take (pos + p.length)) =
        (value.toAsciiLowercase.take pos) ++ p := by
      unfold toAsciiLowercase at hrest ⊢
      rw [map_take, take_add, ← hrest, take_left]
    refine mem_of_mem_toAsciiLowercase hlow ?_
    rw [htake]
    exact mem_append_right _ hd
  unfold maskHeaderCredential
  dsimp only
  cases hbearer : find "bearer ".toList value.toAsciiLowercase with
  | some pos =>
    exact .inl (mem_append_left _ (hkept hbearer (by decide) (by decide)))
  | none =>
    cases hauth : find "authorization:".toList value.toAsciiLowercase with
    | some pos =>
      exact .inr (mem_append_left _ (mem_append_left _
        (hkept hauth (by decide) (by decide))))
    | none =>
      have hsome := h.imp find_isSome_iff.mpr find_isSome_iff.mpr
      rw [hbearer, hauth] at hsome
      rcases hsome with h | h <;> cases h

theorem maskEnvValue_secret_iff {key : Text} (hsec : envKeyIsSecret key.toAsciiLowercase)
    (value : Text) : maskEnvValue key value = ARGV_HEAD_REDACTED ↔ ¬ CarriesCredential value := by
  have hcolon : ':' ∉ ARGV_HEAD_REDACTED := by decide
  have hblank : ' ' ∉ ARGV_HEAD_REDACTED := by decide
  unfold maskEnvValue CarriesCredential
  cases hurl : maskUrlUserinfo value with
  | some masked =>
    refine ⟨fun heq => absurd ?_ hcolon, fun hnot => absurd (.inl rfl) hnot⟩
    rw [← heq]
    exact colon_mem_of_maskUrlUserinfo hurl
  | none =>
    dsimp only
    by_cases hhead : HasHeader value
    · rw [if_pos hhead]
      refine ⟨fun heq => ?_, fun hnot => absurd (.inr hhead) hnot⟩
      have hmark := mark_mem_of_hasHeader hhead
      rw [heq] at hmark
      exact absurd hmark (not_or.mpr ⟨hblank, hcolon⟩)
    · rw [if_neg hhead, if_pos hsec]
      refine ⟨fun _ hcarries => ?_, fun _ => rfl⟩
      rcases hcarries with h | h
      · cases h
      · exact hhead h

/-- **Secret environment variables.** The keys stay, in their order; the value of a secret key is
masked whole exactly if it has no URL with a password and no header credential. -/
theorem secret_env_masked_iff (env : List (Text × Text))
    (hkeys : ∀ pair ∈ env, isEnvKey pair.1 = true) :
    (redactEnvPairs env).map Prod.fst = env.map Prod.fst ∧
      ∀ (i : Nat) (key value : Text), env[i]? = some (key, value) →
        envKeyIsSecret key.toAsciiLowercase = true →
        ((redactEnvPairs env)[i]? = some (key, ARGV_HEAD_REDACTED) ↔
          ¬ CarriesCredential value) := by
  constructor
  · unfold redactEnvPairs
    rw [List.map_map]
    refine map_congr_left fun pair hpair => ?_
    obtain ⟨key, value⟩ := pair
    show (redactEnvPair (key, value)).1 = key
    rw [redactEnvPair_eq (hkeys _ hpair)]
  · intro i key value hi hsec
    have hkey := hkeys _ (mem_of_getElem? hi)
    unfold redactEnvPairs
    rw [getElem?_map, hi, map_some, redactEnvPair_eq hkey, Option.some.injEq,
      Prod.mk.injEq, eq_self_iff_true, true_and]
    exact maskEnvValue_secret_iff hsec value

theorem plain_token_masked :
    (redactEnvPairs [("PATH".toList, "/bin".toList), ("API_TOKEN".toList, "a=b".toList)])[1]? =
      some ("API_TOKEN".toList, "<redacted>".toList) :=
  ((secret_env_masked_iff [("PATH".toList, "/bin".toList), ("API_TOKEN".toList, "a=b".toList)]
    (by decide +kernel)).2 1 "API_TOKEN".toList "a=b".toList rfl (by decide +kernel)).mpr
    (by decide +kernel)

/-- Two values of secret keys that are shown in part. -/
theorem secret_env_shown :
    isEnvKey "API_TOKEN".toList = true ∧ envKeyIsSecret "api_token".toList = true ∧
      redactEnvPairs [("API_TOKEN".toList, "hunter2 Bearer x".toList)] =
        [("API_TOKEN".toList, "hunter2 Bearer <redacted>".toList)] ∧
      redactEnvPairs [("API_TOKEN".toList, "hunter2://a:b@c".toList)] =
        [("API_TOKEN".toList, "hunter2://a:<redacted>@c".toList)] := by
  decide +kernel

end TerminalCommander
