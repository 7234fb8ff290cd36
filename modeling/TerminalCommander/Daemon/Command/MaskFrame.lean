import TerminalCommander.Daemon.Command.Redact

/-!
# The masks around a credential

A credential in a token stands in a frame: the text before it and the text behind it. The strings
that the masks of `daemon/src/command.rs` look for end in a character that no credential has, so
where they find them does not depend on the credential. From this follows what the header mask and
the URL mask do to every token of a frame: they cover the credential, or they show it.
-/

namespace TerminalCommander

open List Option Text Function

def alphanumeric (c : Char) : Bool := c.isAlphanum || decide (128 ≤ c.toNat)

def IsWord (t : Text) : Prop := ∀ c ∈ t, alphanumeric c = true

structure IsCredential (t : Text) : Prop where
  nonempty : t ≠ []
  word : IsWord t

def EndsUser (post : Text) : Prop := post = [] ∨ post.head? = some '@'

/-! ## Strings that a credential cannot be part of -/

structure Closed (p : Text) : Prop where
  last : ∃ q l, p = q ++ [l] ∧ alphanumeric l = false
  noAt : '@' ∉ p

theorem Closed.ne_nil {p : Text} (h : Closed p) : p ≠ [] := by
  obtain ⟨q, l, rfl, -⟩ := h.last
  simp

theorem Closed.prefix_of_prefix {p : Text} (h : Closed p) {c post : Text} (hc : IsWord c)
    (hpost : EndsUser post) {s : Text} (hp : p <+: s ++ (c ++ post)) : p <+: s := by
  rcases prefix_or_prefix_of_prefix hp (prefix_append s _) with hin | ⟨q, rfl⟩
  · exact hin
  · by_cases hq : q = []
    · simp [hq]
    · exfalso
      -- the last character of the string is not one of the credential
      obtain ⟨r, l, hlast, hl⟩ := h.last
      have hmem : l ∈ q := by
        have hget := congrArg getLast? hlast
        rw [getLast?_append_of_ne_nil _ hq, getLast?_concat] at hget
        exact mem_of_getLast? hget
      have hnot : l ∉ c := fun hlc => by
        rw [hc l hlc] at hl
        exact Bool.noConfusion hl
      have hpre := (prefix_append_right_inj s).mp hp
      rcases prefix_or_prefix_of_prefix hpre (prefix_append c _) with hin | ⟨q', rfl⟩
      · exact hnot (hin.subset hmem)
      · -- so it reaches behind the credential, where the text starts with the sign
        have hpre' := (prefix_append_right_inj c).mp hpre
        have hmem' : l ∈ q' := (mem_append.mp hmem).resolve_left hnot
        rcases hpost with rfl | hhead
        · rw [prefix_nil.mp hpre'] at hmem'
          simp at hmem'
        · cases q' with
          | nil => simp at hmem'
          | cons d q' =>
            obtain ⟨after, rfl⟩ := hpre'
            have hd : d = '@' := by simpa using hhead
            exact h.noAt (by simp [hd])

theorem Closed.find_token {p : Text} (h : Closed p) {pre c post : Text} (hc : IsWord c)
    (hpost : EndsUser post) : find p (pre ++ (c ++ post)) =
      (find p pre).or ((find p post).map (· + (pre.length + c.length))) := by
  have hbehind : find p (c ++ post) = (find p post).map (· + c.length) := by
    have hnone : find p c = none := by
      rw [eq_none_iff_forall_ne_some]
      intro i hi
      obtain ⟨q, l, rfl, hl⟩ := h.last
      have hmem := (isInfix_of_find hi).subset (mem_append_right q (mem_singleton_self l))
      rw [hc l hmem] at hl
      exact Bool.noConfusion hl
    rw [find_append h.ne_nil, hnone, none_or]
    intro s hs hp
    refine h.prefix_of_prefix (c := []) (by simp [IsWord]) hpost hp
  rw [find_append h.ne_nil fun s _ => h.prefix_of_prefix hc hpost, hbehind, Option.map_map]
  congr 2
  funext n
  simp only [comp_apply]
  omega

/-! ## Lower case -/

theorem alphanumeric_toLower {c : Char} (h : alphanumeric c) : alphanumeric c.toLower := by
  rcases toLower_cases c with hsame | hlower
  · rw [hsame]
    exact h
  · have halpha : c.toLower.isAlpha := isAlpha_iff.mpr (.inr (isLower_iff.mp hlower))
    show (c.toLower.isAlpha || c.toLower.isDigit || _)
    rw [halpha]
    rfl

theorem IsWord.lower {c : Text} (h : IsWord c) : IsWord c.toAsciiLowercase := by
  intro d hd
  obtain ⟨e, he, rfl⟩ := List.mem_map.mp hd
  exact alphanumeric_toLower (h e he)

theorem EndsUser.lower {post : Text} (h : EndsUser post) : EndsUser post.toAsciiLowercase := by
  rcases h with rfl | hhead
  · exact .inl rfl
  · right
    rw [toAsciiLowercase, head?_map, hhead]
    rfl

theorem toAsciiLowercase_token (pre c post : Text) : (pre ++ (c ++ post)).toAsciiLowercase =
    pre.toAsciiLowercase ++ (c.toAsciiLowercase ++ post.toAsciiLowercase) := by
  simp [toAsciiLowercase]

@[simp] theorem length_toAsciiLowercase (t : Text) : t.toAsciiLowercase.length = t.length :=
  length_map _

variable {t : Text} {i : Nat}

theorem add_length_le_of_find {p : Text} (h : find p t = some i)
    (hp : p ≠ []) : i + p.length ≤ t.length := by
  have hle := (Text.prefix_drop_of_find h).length_le
  have hpos := length_pos_of_ne_nil hp
  rw [length_drop] at hle
  omega

/-! ## The header mask -/

def HeaderHides (pre post : Text) : Prop :=
  "bearer ".toList <:+: pre.toAsciiLowercase ∨
    ¬ "bearer ".toList <:+: post.toAsciiLowercase ∧
      ("authorization:".toList <:+: pre.toAsciiLowercase ∨
        ¬ "authorization:".toList <:+: post.toAsciiLowercase ∧ ':' ∈ pre)

theorem closed_bearer : Closed "bearer ".toList :=
  ⟨⟨"bearer".toList, ' ', rfl, by decide⟩, by decide⟩

theorem closed_authorization : Closed "authorization:".toList :=
  ⟨⟨"authorization".toList, ':', rfl, by decide⟩, by decide⟩

variable {n : Nat}

theorem take_token {pre : Text} (h : n ≤ pre.length) (rest : Text) :
    (pre ++ rest).take n = pre.take n := take_append_of_le_length h

theorem drop_token {pre : Text} (h : n ≤ pre.length) (rest : Text) :
    (pre ++ rest).drop n = pre.drop n ++ rest := drop_append_of_le_length h

theorem headerSep_token {pre c post : Text} (h : n ≤ pre.length) (hc : IsWord c)
    (hpost : EndsUser post) : headerSep ((pre ++ (c ++ post)).drop n) = headerSep (pre.drop n) := by
  rw [drop_token h]
  unfold headerSep
  by_cases hnil : pre.drop n = []
  · have hhead : (c ++ post).head? ≠ some ' ' := by
      cases c with
      | nil => rcases hpost with rfl | hhead <;> simp_all
      | cons d c =>
        intro hd
        have hd : d = ' ' := by simpa using hd
        have := hc d mem_cons_self
        rw [hd] at this
        exact absurd this (by decide)
    rw [hnil, nil_append, if_neg hhead, if_neg (by simp)]
  · rw [head?_append_of_ne_nil _ hnil]

variable {d : Char}

theorem findChar_token {pre c post : Text} (hc : IsWord c)
    (hd : alphanumeric d = false) : findChar (· == d) (pre ++ (c ++ post)) =
      (findChar (· == d) pre).or
        ((findChar (· == d) post).map (· + (pre.length + c.length))) := by
  unfold findChar
  have hnone : findIdx? (· == d) c = none := by
    rw [findIdx?_eq_none_iff]
    intro e he
    rw [beq_eq_false_iff_ne]
    rintro rfl
    rw [hc e he] at hd
    exact Bool.noConfusion hd
  rw [findIdx?_append, findIdx?_append, hnone, none_or, Option.map_map]
  congr 2
  funext n
  simp only [comp_apply]
  omega

theorem findChar_lt {p : Char → Bool} (h : findChar p t = some i) :
    i < t.length := (findIdx?_eq_some_iff_getElem.mp h).1

theorem findChar_eq_none_iff : findChar (· == d) t = none ↔ d ∉ t := by
  unfold findChar
  rw [findIdx?_eq_none_iff]
  constructor
  · intro h hd
    simpa using h d hd
  · intro h e he
    rw [beq_eq_false_iff_ne]
    rintro rfl
    exact h he

theorem prefix_take_token {pre c : Text} (h : pre.length + c.length ≤ n) (post : Text) :
    pre ++ c <+: (pre ++ (c ++ post)).take n := by
  have hlen : (pre ++ c).length ≤ n := by simpa using h
  rw [← append_assoc, take_append, take_of_length_le hlen]
  exact prefix_append _ _

section Header

variable {token : Text}

section

variable (hbearer : find "bearer ".toList token.toAsciiLowercase = none)

include hbearer

theorem maskHeader_authorization (h : find "authorization:".toList token.toAsciiLowercase = some i) :
    maskHeaderCredential token =
      token.take (i + 14) ++ headerSep (token.drop (i + 14)) ++ ARGV_HEAD_REDACTED := by
  unfold maskHeaderCredential
  simp only [hbearer, h]

theorem maskHeader_colon (hauth : find "authorization:".toList token.toAsciiLowercase = none)
    (h : token.findChar (· == ':') = some i) : maskHeaderCredential token =
      token.take (i + 1) ++ headerSep (token.drop (i + 1)) ++ ARGV_HEAD_REDACTED := by
  unfold maskHeaderCredential
  simp only [hbearer, hauth, h]

theorem maskHeader_plain (hauth : find "authorization:".toList token.toAsciiLowercase = none)
    (h : token.findChar (· == ':') = none) : maskHeaderCredential token = token := by
  unfold maskHeaderCredential
  simp only [hbearer, hauth, h]

end

end Header

section Frame

variable {pre post : Text}

theorem Closed.find_lower {p : Text} (h : Closed p) (hpost : EndsUser post) {c : Text}
    (hc : IsWord c) : find p (pre ++ (c ++ post)).toAsciiLowercase =
      (find p pre.toAsciiLowercase).or
        ((find p post.toAsciiLowercase).map (· + (pre.length + c.length))) := by
  rw [toAsciiLowercase_token, h.find_token hc.lower hpost.lower, length_toAsciiLowercase,
    length_toAsciiLowercase]

/-- What a mask does to the words of a frame: it covers them all, or it shows each. -/
inductive Masks (hides : Prop) (mask : Text → Text) : Prop
  | covers (h : hides) (out : Text) (hmask : ∀ c, IsWord c → mask c = out)
  | shows (h : ¬ hides) (q : Text) (hmask : ∀ c, IsWord c → q ++ c <+: mask c)

theorem Masks.congr {hides : Prop} {f g : Text → Text} (h : Masks hides f)
    (heq : ∀ c, IsWord c → g c = f c) : Masks hides g := by
  cases h with
  | covers h out hf => exact .covers h out fun c hc => (heq c hc).trans (hf c hc)
  | shows h q hf => exact .shows h q fun c hc => heq c hc ▸ hf c hc

theorem Masks.prepend {hides : Prop} {f : Text → Text} (h : Masks hides f) (front : Text) :
    Masks hides fun c => front ++ f c := by
  cases h with
  | covers h out hf => exact .covers h (front ++ out) fun c hc => congrArg (front ++ ·) (hf c hc)
  | shows h q hf =>
    refine .shows h (front ++ q) fun c hc => ?_
    rw [append_assoc]
    exact (prefix_append_right_inj front).mpr (hf c hc)

theorem prefix_token (pre c post : Text) : pre ++ c <+: pre ++ (c ++ post) := by
  rw [← append_assoc]
  exact prefix_append _ _

/-- A rule that keeps the token up to what it finds covers the word if it finds it before the word,
shows it if it finds it behind, and leaves the token to the next rule otherwise. -/
theorem Masks.of_find {f s : Text → Text} {g : Text → Option Nat} {k : Nat} {hides p : Prop}
    (hfind : ∀ c, IsWord c → g (pre ++ (c ++ post)) =
      (g pre).or ((g post).map (· + (pre.length + c.length))))
    (hle : ∀ i, g pre = some i → i + k ≤ pre.length)
    (hsep : ∀ n c, n ≤ pre.length → IsWord c → s ((pre ++ (c ++ post)).drop n) = s (pre.drop n))
    (hmask : ∀ c i, IsWord c → g (pre ++ (c ++ post)) = some i → f (pre ++ (c ++ post)) =
      (pre ++ (c ++ post)).take (i + k) ++ s ((pre ++ (c ++ post)).drop (i + k)) ++
        ARGV_HEAD_REDACTED) (hnext : (∀ c, IsWord c → g (pre ++ (c ++ post)) = none) →
      Masks p fun c => f (pre ++ (c ++ post)))
    (hiff : hides ↔ (g pre).isSome ∨ ¬ (g post).isSome ∧ p) :
    Masks hides fun c => f (pre ++ (c ++ post)) := by
  rcases hpre : g pre with - | i
  · rcases hbehind : g post with - | j
    · have hno : hides ↔ p := by simpa [hpre, hbehind] using hiff
      rw [hno]
      exact hnext fun c hc => by rw [hfind c hc, hpre, hbehind]; rfl
    · refine .shows (by simp [hiff, hpre, hbehind]) pre fun c hc => ?_
      have hat := hfind c hc
      rw [hpre, hbehind, none_or, map_some] at hat
      rw [hmask c _ hc hat, append_assoc]
      exact (prefix_take_token (by omega) post).trans (prefix_append _ _)
  · have hi := hle i hpre
    refine .covers (by simp [hiff, hpre])
      (pre.take (i + k) ++ s (pre.drop (i + k)) ++ ARGV_HEAD_REDACTED) fun c hc => ?_
    rw [hmask c i hc (by rw [hfind c hc, hpre]; rfl), take_token hi, hsep _ c hi hc]

theorem header_masks (pre : Text) (hpost : EndsUser post) :
    Masks (HeaderHides pre post) fun c => maskHeaderCredential (pre ++ (c ++ post)) := by
  have hsep : ∀ n c, n ≤ pre.length → IsWord c →
      headerSep ((pre ++ (c ++ post)).drop n) = headerSep (pre.drop n) :=
    fun n c hn hc => headerSep_token hn hc hpost
  refine Masks.of_find (g := fun t => find "bearer ".toList t.toAsciiLowercase) (k := 7)
    (s := fun _ => []) (fun c hc => closed_bearer.find_lower hpost hc)
    (fun i hi => by simpa using add_length_le_of_find hi closed_bearer.ne_nil)
    (fun _ _ _ _ => rfl) (fun c i _ hi => by
      unfold maskHeaderCredential
      simp only [hi, append_nil]) ?_
    (by simp only [find_isSome_iff]; rfl)
  intro hbearer
  refine Masks.of_find (g := fun t => find "authorization:".toList t.toAsciiLowercase)
    (k := 14) (fun c hc => closed_authorization.find_lower hpost hc)
    (fun i hi => by simpa using add_length_le_of_find hi closed_authorization.ne_nil) hsep
    (fun c i hc hi => maskHeader_authorization (hbearer c hc) hi) ?_
    (by simp only [find_isSome_iff]; rfl)
  intro hauth
  refine Masks.of_find (g := findChar (· == ':')) (k := 1) (p := False)
    (fun c hc => findChar_token hc (by decide)) (fun i hi => findChar_lt hi) hsep
    (fun c i hc hi => maskHeader_colon (hbearer c hc) (hauth c hc) hi) ?_ ?_
  · intro hcolon
    refine .shows not_false pre fun c hc => ?_
    rw [maskHeader_plain (hbearer c hc) (hauth c hc) (hcolon c hc)]
    exact prefix_token pre c post
  · rw [and_false, or_false, isSome_iff_ne_none, Ne, findChar_eq_none_iff, not_not]

/-! ## The URL mask -/

def inAuthority (c : Char) : Bool := !"/?#".toList.contains c

def userinfoSpan (authority : Text) : Option (Nat × Nat) := do
  let atSign ← Text.rfindChar (· == '@') authority
  let colon ← Text.findChar (· == ':') (authority.take atSign)
  return (colon, atSign)

theorem maskUrlUserinfo_eq {token : Text} (h : find "://".toList token = some i) :
    maskUrlUserinfo token = (userinfoSpan ((token.drop (i + 3)).takeWhile inAuthority)).map
      fun span => token.take (i + 3 + span.1 + 1) ++ ARGV_HEAD_REDACTED ++
        token.drop (i + 3 + span.2) := by
  have hauthority : (fun c => !"/?#".toList.contains c) = inAuthority := rfl
  unfold maskUrlUserinfo userinfoSpan
  rw [h]
  simp only [hauthority, bind_eq_bind, bind_some, Option.map_bind]
  congr 1
  funext atSign
  simp only [comp_apply, Option.map_bind]
  rfl

theorem rfindChar_append (p : Char → Bool) (t u : Text) : rfindChar p (t ++ u) =
    ((rfindChar p u).map (· + t.length)).or (rfindChar p t) := by
  unfold rfindChar
  rw [reverse_append, findIdx?_append]
  rcases hu : findIdx? p u.reverse with - | k
  · rw [none_or, map_none, map_none, none_or, Option.map_map]
    congr 1
    funext n
    simp only [comp_apply, length_append, length_reverse]
    omega
  · have hk : k < u.length := by
      simpa using (findIdx?_eq_some_iff_getElem.mp hu).1
    rw [some_or, map_some, map_some, map_some, some_or, length_append]
    congr 1
    omega

theorem rfindChar_lt {p : Char → Bool} (h : rfindChar p t = some i) : i < t.length := by
  unfold rfindChar at h
  obtain ⟨k, hk, rfl⟩ := map_eq_some_iff.mp h
  have hlt : k < t.length := by
    simpa using (findIdx?_eq_some_iff_getElem.mp hk).1
  omega

theorem rfindChar_eq_none_iff : rfindChar (· == d) t = none ↔ d ∉ t := by
  unfold rfindChar
  rw [map_eq_none_iff]
  exact findChar_eq_none_iff.trans (by rw [mem_reverse])

theorem userinfoSpan_lt {authority : Text} {span : Nat × Nat}
    (h : userinfoSpan authority = some span) : span.1 < span.2 ∧ span.2 < authority.length := by
  unfold userinfoSpan at h
  simp only [bind_eq_bind, bind_eq_some_iff] at h
  obtain ⟨a, ha, k, hk, hspan⟩ := h
  obtain rfl : (k, a) = span := Option.some.inj hspan
  have hlt := findChar_lt hk
  rw [length_take] at hlt
  exact ⟨by omega, rfindChar_lt ha⟩

theorem IsWord.not_mem {c : Text} (h : IsWord c) (hd : alphanumeric d = false) : d ∉ c := by
  intro hmem
  rw [h d hmem] at hd
  exact Bool.noConfusion hd

theorem IsWord.inAuthority {c : Text} (h : IsWord c) : ∀ d ∈ c, inAuthority d := by
  intro d hd
  have hne : ∀ e, alphanumeric e = false → d ≠ e := by
    rintro e he rfl
    exact h.not_mem he hd
  simp [TerminalCommander.inAuthority, hne '/' (by decide), hne '?' (by decide),
    hne '#' (by decide)]

def UrlHides (pre post : Text) : Prop :=
  ∃ i ∈ Text.find "://".toList pre, (∀ d ∈ pre.drop (i + 3), inAuthority d = true) ∧
    ':' ∈ pre.drop (i + 3) ∧ post ≠ []

theorem closed_scheme : Closed "://".toList := ⟨⟨":/".toList, '/', rfl, by decide⟩, by decide⟩

inductive UrlCase (pre post : Text) : Prop
  | silent (h : ∀ c, IsWord c → maskUrlUserinfo (pre ++ (c ++ post)) = none)
  | hides (hides : UrlHides pre post) (out : Text)
      (h : ∀ c, IsWord c → maskUrlUserinfo (pre ++ (c ++ post)) = some out)
  | shows (shows : ¬ UrlHides pre post) (q : Text)
      (h : ∀ c, IsWord c → ∃ masked, maskUrlUserinfo (pre ++ (c ++ post)) = some masked ∧
        q ++ c <+: masked)

theorem urlCase_behind (hpost : EndsUser post) (h : find "://".toList pre = none) :
    UrlCase pre post := by
  have hfind : ∀ c, IsWord c → find "://".toList (pre ++ (c ++ post)) =
      (find "://".toList post).map (· + (pre.length + c.length)) := by
    intro c hc
    rw [closed_scheme.find_token hc hpost, h, none_or]
  rcases hj : find "://".toList post with - | j
  · refine .silent fun c hc => ?_
    rw [maskUrlUserinfo, hfind c hc, hj, map_none]
    rfl
  · have hmask : ∀ c, IsWord c → maskUrlUserinfo (pre ++ (c ++ post)) =
        (userinfoSpan ((post.drop (j + 3)).takeWhile inAuthority)).map fun span =>
          (pre ++ (c ++ post)).take (j + (pre.length + c.length) + 3 + span.1 + 1) ++
            ARGV_HEAD_REDACTED ++
            (pre ++ (c ++ post)).drop (j + (pre.length + c.length) + 3 + span.2) := by
      intro c hc
      have hdrop : (pre ++ (c ++ post)).drop (j + (pre.length + c.length) + 3) =
          post.drop (j + 3) := by
        rw [← append_assoc, show j + (pre.length + c.length) + 3 =
          (pre ++ c).length + (j + 3) by rw [length_append]; omega, drop_append]
        simp
      rw [maskUrlUserinfo_eq (by rw [hfind c hc, hj]; rfl), hdrop]
    rcases hspan : userinfoSpan ((post.drop (j + 3)).takeWhile inAuthority) with - | span
    · refine .silent fun c hc => ?_
      rw [hmask c hc, hspan, map_none]
    · refine .shows ?_ pre fun c hc => ?_
      · rintro ⟨i, hi, -⟩
        rw [h] at hi
        exact absurd hi (not_mem_none i)
      · have hm := hmask c hc
        rw [hspan, map_some, append_assoc] at hm
        exact ⟨_, hm, (prefix_take_token (by omega) post).trans (prefix_append _ _)⟩

theorem urlCase_before (authority : Text) (hi : find "://".toList pre = some i)
    (hpost : EndsUser post) (hle : authority.length ≤ (pre.drop (i + 3)).length)
    (hspan : ∀ c, IsWord c → userinfoSpan (((pre ++ (c ++ post)).drop (i + 3)).takeWhile
      inAuthority) = userinfoSpan authority) (hnot : ¬ UrlHides pre post) : UrlCase pre post := by
  have hlen : i + 3 ≤ pre.length := add_length_le_of_find hi (by decide)
  have hmask : ∀ c, IsWord c → maskUrlUserinfo (pre ++ (c ++ post)) =
      (userinfoSpan authority).map fun span =>
        (pre ++ (c ++ post)).take (i + 3 + span.1 + 1) ++ ARGV_HEAD_REDACTED ++
          (pre ++ (c ++ post)).drop (i + 3 + span.2) := by
    intro c hc
    have hfind : find "://".toList (pre ++ (c ++ post)) = some i := by
      rw [closed_scheme.find_token hc hpost, hi, some_or]
    rw [maskUrlUserinfo_eq hfind, hspan c hc]
  rcases hs : userinfoSpan authority with - | span
  · refine .silent fun c hc => ?_
    rw [hmask c hc, hs, map_none]
  · obtain ⟨hlt, hend⟩ := userinfoSpan_lt hs
    rw [length_drop] at hle
    refine .shows hnot (pre.take (i + 3 + span.1 + 1) ++ ARGV_HEAD_REDACTED ++
      pre.drop (i + 3 + span.2)) fun c hc => ?_
    have hm := hmask c hc
    rw [hs, map_some, take_token (by omega), drop_token (by omega)] at hm
    refine ⟨_, hm, ⟨post, ?_⟩⟩
    simp only [append_assoc]

theorem userinfoSpan_over {before behind c : Text} {a : Nat} (hc : IsWord c)
    (ha : rfindChar (· == '@') behind = some a) : userinfoSpan (before ++ (c ++ behind)) =
      ((findChar (· == ':') before).or ((findChar (· == ':') (behind.take a)).map
        (· + (before.length + c.length)))).map fun colon =>
          (colon, a + (before.length + c.length)) := by
  have hat : rfindChar (· == '@') (before ++ (c ++ behind)) =
      some (a + (before.length + c.length)) := by
    rw [← append_assoc, rfindChar_append, ha, map_some, some_or, length_append]
  have htake : (before ++ (c ++ behind)).take (a + (before.length + c.length)) =
      before ++ (c ++ behind.take a) := by
    rw [← append_assoc, ← append_assoc, show a + (before.length + c.length) =
      (before ++ c).length + a by rw [length_append]; omega, take_length_add_append]
  unfold userinfoSpan
  rw [hat]
  simp only [bind_eq_bind, bind_some, htake]
  rw [findChar_token hc (by decide)]
  exact map_eq_bind.symm

theorem userinfoSpan_word {before c : Text} (hc : IsWord c) :
    userinfoSpan (before ++ c) = userinfoSpan before := by
  have hat : rfindChar (· == '@') (before ++ c) = rfindChar (· == '@') before := by
    rw [rfindChar_append, rfindChar_eq_none_iff.mpr (hc.not_mem (by decide)), map_none, none_or]
  unfold userinfoSpan
  rw [hat]
  rcases ha : rfindChar (· == '@') before with - | a
  · rfl
  · simp only [bind_eq_bind, bind_some]
    rw [take_token (Nat.le_of_lt (rfindChar_lt ha))]

theorem urlCase_over (hi : find "://".toList pre = some i)
    (hall : ∀ d ∈ pre.drop (i + 3), inAuthority d) (hhead : post.head? = some '@') :
    UrlCase pre post := by
  have hpost : EndsUser post := .inr hhead
  have hne : post ≠ [] := by
    rintro rfl
    simp at hhead
  have hlen : i + 3 ≤ pre.length := add_length_le_of_find hi (by decide)
  have hdropLen : (pre.drop (i + 3)).length = pre.length - (i + 3) := length_drop
  obtain ⟨a, ha⟩ : ∃ a, rfindChar (· == '@') (post.takeWhile inAuthority) = some a := by
    rw [← ne_none_iff_exists']
    intro hnone
    refine rfindChar_eq_none_iff.mp hnone ?_
    cases post with
    | nil => exact absurd rfl hne
    | cons d rest =>
      obtain rfl : d = '@' := by simpa using hhead
      rw [takeWhile_cons_of_pos (by decide)]
      exact mem_cons_self
  have hmask : ∀ c, IsWord c → maskUrlUserinfo (pre ++ (c ++ post)) =
      ((findChar (· == ':') (pre.drop (i + 3))).or
        ((findChar (· == ':') ((post.takeWhile inAuthority).take a)).map
          (· + ((pre.drop (i + 3)).length + c.length)))).map fun colon =>
        (pre ++ (c ++ post)).take (i + 3 + colon + 1) ++ ARGV_HEAD_REDACTED ++
          (pre ++ (c ++ post)).drop (i + 3 + (a + ((pre.drop (i + 3)).length + c.length))) := by
    intro c hc
    have hfind : find "://".toList (pre ++ (c ++ post)) = some i := by
      rw [closed_scheme.find_token hc hpost, hi, some_or]
    rw [maskUrlUserinfo_eq hfind, drop_token hlen, takeWhile_append_of_pos hall,
      takeWhile_append_of_pos hc.inAuthority, userinfoSpan_over hc ha, Option.map_map]
    rfl
  rcases hk : findChar (· == ':') (pre.drop (i + 3)) with - | k
  · have hnot : ¬ UrlHides pre post := by
      rintro ⟨j, hj, -, hcolon, -⟩
      obtain rfl : i = j := Option.some.inj (hi.symm.trans hj)
      exact findChar_eq_none_iff.mp hk hcolon
    rcases hk' : findChar (· == ':') ((post.takeWhile inAuthority).take a) with - | k
    · refine .silent fun c hc => ?_
      rw [hmask c hc, hk, hk']
      rfl
    · refine .shows hnot pre fun c hc => ?_
      have hm := hmask c hc
      rw [hk, hk', map_some, none_or, map_some, append_assoc] at hm
      exact ⟨_, hm, (prefix_take_token (by omega) post).trans (prefix_append _ _)⟩
  · have hcolon : ':' ∈ pre.drop (i + 3) := by
      by_contra hno
      rw [findChar_eq_none_iff.mpr hno] at hk
      cases hk
    have hlt := findChar_lt hk
    refine .hides ⟨i, hi, hall, hcolon, hne⟩
      (pre.take (i + 3 + k + 1) ++ ARGV_HEAD_REDACTED ++ post.drop a) fun c hc => ?_
    have hdrop : (pre ++ (c ++ post)).drop (i + 3 + (a + ((pre.drop (i + 3)).length + c.length))) =
        post.drop a := by
      rw [← append_assoc, show i + 3 + (a + ((pre.drop (i + 3)).length + c.length)) =
        (pre ++ c).length + a by rw [length_append]; omega, drop_append]
      simp
    rw [hmask c hc, hk, some_or, map_some, hdrop, take_token (by omega)]

theorem urlCase (pre : Text) {post : Text} (hpost : EndsUser post) : UrlCase pre post := by
  rcases hi : find "://".toList pre with - | i
  · exact urlCase_behind hpost hi
  · have hlen : i + 3 ≤ pre.length := add_length_le_of_find hi (by decide)
    have hunique : ∀ {j}, j ∈ find "://".toList pre → i = j :=
      fun hj => Option.some.inj (hi.symm.trans hj)
    by_cases hall : ∀ d ∈ pre.drop (i + 3), inAuthority d
    · rcases hpost with rfl | hhead
      · -- nothing behind the credential: the last sign stands before it
        refine urlCase_before (pre.drop (i + 3)) hi (.inl rfl) le_rfl (fun c hc => ?_) ?_
        · rw [append_nil, drop_token hlen, takeWhile_append_of_pos hall,
            takeWhile_eq_self_iff.mpr hc.inAuthority, userinfoSpan_word hc]
        · rintro ⟨j, hj, -, -, hne⟩
          exact hne rfl
      · exact urlCase_over hi hall hhead
    · refine urlCase_before ((pre.drop (i + 3)).takeWhile inAuthority) hi hpost
        (List.takeWhile_prefix _).length_le (fun c hc => ?_) ?_
      · rw [drop_token hlen, takeWhile_append, if_neg]
        intro heq
        exact hall (takeWhile_eq_self_iff.mp ((List.takeWhile_prefix _).eq_of_length heq))
      · rintro ⟨j, hj, hall', -⟩
        obtain rfl := hunique hj
        exact hall hall'

end Frame

end TerminalCommander
