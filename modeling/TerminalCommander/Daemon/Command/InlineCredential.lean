import Mathlib.Data.List.Find
import TerminalCommander.Daemon.Command.MaskFrame

/-!
# Credentials inside a token

`mask_token_inline` tries its rules in order and the first that fires returns, so the span that one
rule masks can shield another credential of the same token. Which rule fires does not depend on the
credential, and `FrameHides` says, rule by rule, whether its span covers it.
-/

namespace TerminalCommander

open List Option Text Option

/-! ## The rules in order -/

def flagSpan (token : Text) : Option Nat :=
  ((SECRET_VALUE_FLAGS.find? fun flag => (flag ++ ['=']).isPrefixOf token.toAsciiLowercase).map
      (·.length + 1)).or
    ((if attachedShort "-p".toList token then some 2
      else if attachedShort "-u".toList token && (token.drop 2).contains ':' then some 2
      else none).or
    (((["--user=", "--proxy-user="].map String.toList).find? fun flag =>
      flag.isPrefixOf token.toAsciiLowercase && (token.drop flag.length).contains ':').map
        List.length))

def maskBare (token : Text) : Text :=
  if "--header=".toList.isPrefixOf token.toAsciiLowercase then
    token.take 9 ++ maskHeaderCredential (token.drop 9)
  else
    match maskUrlUserinfo token with
    | some masked => masked
    | none =>
      if "bearer ".toList <:+: token.toAsciiLowercase ∨
          "authorization:".toList <:+: token.toAsciiLowercase then
        maskHeaderCredential token
      else
        match token.findChar (· == '=') with
        | some eq =>
          if envKeyIsSecret (Text.toAsciiLowercase (token.take eq)) then
            token.take (eq + 1) ++ ARGV_HEAD_REDACTED
          else token
        | none => token

variable {n : Nat}

section Rules

variable {token : Text}

theorem maskTokenInline_flag (h : flagSpan token = some n) :
    maskTokenInline token = token.take n ++ ARGV_HEAD_REDACTED := by
  unfold flagSpan at h
  unfold maskTokenInline
  rcases hflag : SECRET_VALUE_FLAGS.find? fun flag =>
    (flag ++ ['=']).isPrefixOf token.toAsciiLowercase with - | flag
  · simp only [hflag, map_none, none_or] at h ⊢
    by_cases hp : attachedShort "-p".toList token
    · simp only [hp, if_true, some_or, some.injEq] at h ⊢
      rw [h]
    · by_cases hu : (attachedShort "-u".toList token && (token.drop 2).contains ':')
      · simp only [hp, hu, if_true, Bool.false_eq_true, if_false, some_or, some.injEq] at h ⊢
        rw [h]
      · simp only [hp, hu, Bool.false_eq_true, if_false, none_or] at h ⊢
        obtain ⟨flag, hflag, rfl⟩ := map_eq_some_iff.mp h
        simp only [hflag]
  · simp only [hflag, map_some, some_or, some.injEq] at h ⊢
    rw [h]

theorem maskTokenInline_bare (h : flagSpan token = none) :
    maskTokenInline token = maskBare token := by
  unfold flagSpan at h
  rw [or_eq_none_iff, or_eq_none_iff, map_eq_none_iff, map_eq_none_iff] at h
  obtain ⟨hflag, hshort, huser⟩ := h
  split_ifs at hshort with hp hu
  unfold maskTokenInline
  simp only [hflag, hp, hu, huser, Bool.false_eq_true, if_false]
  rfl

theorem maskBare_header (h : "--header=".toList <+: token.toAsciiLowercase) :
    maskBare token = token.take 9 ++ maskHeaderCredential (token.drop 9) := by
  unfold maskBare
  rw [if_pos (List.isPrefixOf_iff_prefix.mpr h)]

variable (hheader : ¬ "--header=".toList <+: token.toAsciiLowercase)

include hheader

theorem maskBare_url {masked : Text} (h : maskUrlUserinfo token = some masked) :
    maskBare token = masked := by
  unfold maskBare
  rw [if_neg (by rwa [List.isPrefixOf_iff_prefix]), h]

theorem maskBare_label (hurl : maskUrlUserinfo token = none)
    (h : "bearer ".toList <:+: token.toAsciiLowercase ∨
      "authorization:".toList <:+: token.toAsciiLowercase) :
    maskBare token = maskHeaderCredential token := by
  unfold maskBare
  rw [if_neg (by rwa [List.isPrefixOf_iff_prefix]), hurl]
  exact if_pos h

variable (hurl : maskUrlUserinfo token = none)
  (hlabel : ¬ ("bearer ".toList <:+: token.toAsciiLowercase ∨
    "authorization:".toList <:+: token.toAsciiLowercase))

include hurl hlabel

theorem maskBare_env {eq : Nat} (h : token.findChar (· == '=') = some eq) :
    maskBare token = if envKeyIsSecret (toAsciiLowercase (token.take eq)) then
      token.take (eq + 1) ++ ARGV_HEAD_REDACTED else token := by
  unfold maskBare
  rw [if_neg (by rwa [List.isPrefixOf_iff_prefix]), hurl]
  simp only [if_neg hlabel, h]

theorem maskBare_plain (h : token.findChar (· == '=') = none) : maskBare token = token := by
  unfold maskBare
  rw [if_neg (by rwa [List.isPrefixOf_iff_prefix]), hurl]
  simp only [if_neg hlabel, h]

end Rules

/-! ## The rules in a frame -/

def flagSpanOf (pre post : Text) : Option Nat :=
  ((SECRET_VALUE_FLAGS.find? fun flag => (flag ++ ['=']).isPrefixOf pre.toAsciiLowercase).map
      (·.length + 1)).or
    ((if attachedShort "-p".toList pre then some 2
      else if attachedShort "-u".toList pre && (pre.drop 2 ++ post).contains ':' then some 2
      else none).or
    (((["--user=", "--proxy-user="].map String.toList).find? fun flag =>
      flag.isPrefixOf pre.toAsciiLowercase && (pre.drop flag.length ++ post).contains ':').map
        List.length))

variable {c : Text}

section Frame

variable {pre post : Text}

variable {p : Text}

theorem Closed.prefix_lower_iff (h : Closed p) (hpost : EndsUser post) (hc : IsWord c) :
    p <+: (pre ++ (c ++ post)).toAsciiLowercase ↔ p <+: pre.toAsciiLowercase := by
  rw [toAsciiLowercase_token]
  exact ⟨h.prefix_of_prefix hc.lower hpost.lower, fun hp => hp.trans (prefix_append _ _)⟩

theorem Closed.infix_lower_iff (h : Closed p) (hpost : EndsUser post)
    (hc : IsWord c) : p <:+: (pre ++ (c ++ post)).toAsciiLowercase ↔
      p <:+: pre.toAsciiLowercase ∨ p <:+: post.toAsciiLowercase := by
  rw [← find_isSome_iff, h.find_lower hpost hc, isSome_or, isSome_map,
    Bool.or_eq_true, find_isSome_iff, find_isSome_iff]

theorem isPrefixOf_token (h : p.length ≤ pre.length) (rest : Text) :
    p.isPrefixOf (pre ++ rest) = p.isPrefixOf pre := by
  rw [Bool.eq_iff_iff, List.isPrefixOf_iff_prefix, List.isPrefixOf_iff_prefix]
  exact ⟨fun hp => prefix_of_prefix_length_le hp (prefix_append _ _) h,
    fun hp => hp.trans (prefix_append _ _)⟩

theorem length_le_len (t : Text) : t.length ≤ t.len := by
  induction t with
  | nil => simp
  | cons c t ih =>
    have hpos := c.utf8Size_pos
    show t.length + 1 ≤ c.utf8Size + len t
    omega

theorem attachedShort_token (hlong : 3 ≤ pre.length) {letter : Text} (hletter : letter.length = 2)
    (c post : Text) : attachedShort letter (pre ++ (c ++ post)) = attachedShort letter pre := by
  have hlen : ∀ t : Text, 3 ≤ t.length → decide (2 < t.len) := by
    intro t ht
    have := length_le_len t
    simp
    omega
  unfold attachedShort
  rw [isPrefixOf_token (by simp; omega), isPrefixOf_token (by simp; omega), toAsciiLowercase_token,
    isPrefixOf_token (by simp; omega), hlen _ hlong, hlen _ (by simp; omega)]

theorem contains_drop_token (h : n ≤ pre.length) (hc : IsWord c) (post : Text) :
    ((pre ++ (c ++ post)).drop n).contains ':' = (pre.drop n ++ post).contains ':' := by
  rw [drop_token h, Bool.eq_iff_iff]
  simp only [contains_eq_mem, decide_eq_true_eq, mem_append]
  have hno : ':' ∉ c := hc.not_mem (by decide)
  tauto

theorem closed_secretFlag {flag : Text} (h : flag ∈ SECRET_VALUE_FLAGS) :
    Closed (flag ++ ['=']) := by
  have hall : ∀ flag ∈ SECRET_VALUE_FLAGS, '@' ∉ flag ++ ['='] := by decide
  exact ⟨⟨flag, '=', rfl, by decide⟩, hall flag h⟩

theorem closed_userFlag {flag : Text}
    (h : flag ∈ ["--user=", "--proxy-user="].map String.toList) : Closed flag := by
  simp only [map_cons, map_nil, mem_cons, not_mem_nil, or_false] at h
  rcases h with rfl | rfl
  · exact ⟨⟨"--user".toList, '=', rfl, by decide⟩, by decide⟩
  · exact ⟨⟨"--proxy-user".toList, '=', rfl, by decide⟩, by decide⟩

theorem flagSpan_token (hlong : 3 ≤ pre.length) (hpost : EndsUser post)
    (hc : IsWord c) : flagSpan (pre ++ (c ++ post)) = flagSpanOf pre post := by
  have hsec : SECRET_VALUE_FLAGS.find? (fun flag =>
      (flag ++ ['=']).isPrefixOf (pre ++ (c ++ post)).toAsciiLowercase) =
        SECRET_VALUE_FLAGS.find? fun flag => (flag ++ ['=']).isPrefixOf pre.toAsciiLowercase := by
    apply find?_congr
    intro flag hflag
    rw [Bool.eq_iff_iff, List.isPrefixOf_iff_prefix, List.isPrefixOf_iff_prefix]
    exact (closed_secretFlag hflag).prefix_lower_iff hpost hc
  have huser : (["--user=", "--proxy-user="].map String.toList).find? (fun flag =>
      flag.isPrefixOf (pre ++ (c ++ post)).toAsciiLowercase &&
        ((pre ++ (c ++ post)).drop flag.length).contains ':') =
      (["--user=", "--proxy-user="].map String.toList).find? fun flag =>
        flag.isPrefixOf pre.toAsciiLowercase && (pre.drop flag.length ++ post).contains ':' := by
    apply find?_congr
    intro flag hflag
    have hbegins : flag.isPrefixOf (pre ++ (c ++ post)).toAsciiLowercase =
        flag.isPrefixOf pre.toAsciiLowercase := by
      rw [Bool.eq_iff_iff, List.isPrefixOf_iff_prefix, List.isPrefixOf_iff_prefix]
      exact (closed_userFlag hflag).prefix_lower_iff hpost hc
    rw [hbegins]
    by_cases hp : flag <+: pre.toAsciiLowercase
    · rw [contains_drop_token (by simpa using hp.length_le) hc]
    · rw [show flag.isPrefixOf pre.toAsciiLowercase = false by
        rwa [← Bool.not_eq_true, List.isPrefixOf_iff_prefix], Bool.false_and, Bool.false_and]
  unfold flagSpan flagSpanOf
  rw [hsec, huser, attachedShort_token hlong rfl, attachedShort_token hlong rfl,
    contains_drop_token (by omega) hc]

theorem flagSpanOf_le (hlong : 3 ≤ pre.length) (h : flagSpanOf pre post = some n) :
    n ≤ pre.length := by
  unfold flagSpanOf at h
  rcases hflag : SECRET_VALUE_FLAGS.find? fun flag =>
    (flag ++ ['=']).isPrefixOf pre.toAsciiLowercase with - | flag
  · rw [hflag, map_none, none_or] at h
    split_ifs at h
    · rw [some_or, some.injEq] at h
      omega
    · rw [some_or, some.injEq] at h
      omega
    · rw [none_or] at h
      obtain ⟨flag, hflag, rfl⟩ := map_eq_some_iff.mp h
      have hp := find?_some hflag
      rw [Bool.and_eq_true, List.isPrefixOf_iff_prefix] at hp
      simpa using hp.1.length_le
  · rw [hflag, map_some, some_or, some.injEq] at h
    have hp := find?_some hflag
    have hle := (List.isPrefixOf_iff_prefix.mp hp).length_le
    simp at hle
    omega

end Frame

theorem closed_header : Closed "--header=".toList :=
  ⟨⟨"--header".toList, '=', rfl, by decide⟩, by decide⟩

def HasLabel (t : Text) : Prop :=
  "bearer ".toList <:+: t.toAsciiLowercase ∨ "authorization:".toList <:+: t.toAsciiLowercase

instance (t : Text) : Decidable (HasLabel t) := inferInstanceAs (Decidable (_ ∨ _))

def FrameHides (pre post : Text) : Prop :=
  (flagSpanOf pre post).isSome = true ∨
    if "--header=".toList <+: pre.toAsciiLowercase then HeaderHides (pre.drop 9) post
    else if (maskUrlUserinfo (pre ++ post)).isSome = true then UrlHides pre post
    else if HasLabel pre ∨ HasLabel post then HeaderHides pre post
    else ∃ eq ∈ Text.findChar (· == '=') pre,
      envKeyIsSecret (Text.toAsciiLowercase (pre.take eq)) = true

section Frame

variable {pre post : Text} (hpost : EndsUser post)

include hpost

theorem hasLabel_token (hc : IsWord c) :
    HasLabel (pre ++ (c ++ post)) ↔ HasLabel pre ∨ HasLabel post := by
  unfold HasLabel
  rw [closed_bearer.infix_lower_iff hpost hc, closed_authorization.infix_lower_iff hpost hc]
  tauto

theorem plain_masks
    (hheader : ∀ c, IsWord c → ¬ "--header=".toList <+: (pre ++ (c ++ post)).toAsciiLowercase)
    (hurl : ∀ c, IsWord c → maskUrlUserinfo (pre ++ (c ++ post)) = none) :
    Masks (if HasLabel pre ∨ HasLabel post then HeaderHides pre post
      else ∃ eq ∈ findChar (· == '=') pre,
        envKeyIsSecret (toAsciiLowercase (pre.take eq)))
      fun c => maskBare (pre ++ (c ++ post)) := by
  by_cases hlabel : HasLabel pre ∨ HasLabel post
  · have hbare : ∀ c, IsWord c → maskBare (pre ++ (c ++ post)) = _ := fun c hc =>
      maskBare_label (hheader c hc) (hurl c hc) ((hasLabel_token hpost hc).mpr hlabel)
    rw [if_pos hlabel]
    exact (header_masks pre hpost).congr hbare
  · have hnot : ∀ c, IsWord c → ¬ HasLabel (pre ++ (c ++ post)) :=
      fun c hc hin => hlabel ((hasLabel_token hpost hc).mp hin)
    have hfind : ∀ c, IsWord c → findChar (· == '=') (pre ++ (c ++ post)) =
        (findChar (· == '=') pre).or _ := fun c hc => findChar_token hc (by decide)
    rw [if_neg hlabel]
    rcases hpre : findChar (· == '=') pre with - | eq
    · refine .shows (by simp) pre fun c hc => ?_
      have hat := hfind c hc
      rw [hpre, none_or] at hat
      rcases hbehind : findChar (· == '=') post with - | eq
      · rw [hbehind, map_none] at hat
        rw [maskBare_plain (hheader c hc) (hurl c hc) (hnot c hc) hat]
        exact prefix_token pre c post
      · rw [hbehind, map_some] at hat
        rw [maskBare_env (hheader c hc) (hurl c hc) (hnot c hc) hat]
        split_ifs
        · exact (prefix_take_token (by omega) post).trans (prefix_append _ _)
        · exact prefix_token pre c post
    · have hlt := findChar_lt hpre
      have henv : ∀ c, IsWord c → maskBare (pre ++ (c ++ post)) =
          if envKeyIsSecret (toAsciiLowercase (pre.take eq)) then
            pre.take (eq + 1) ++ ARGV_HEAD_REDACTED else pre ++ (c ++ post) := by
        intro c hc
        rw [maskBare_env (hheader c hc) (hurl c hc) (hnot c hc)
          ((hfind c hc).trans (by rw [hpre, some_or])),
          take_token (Nat.le_of_lt hlt), take_token hlt]
      by_cases hkey : envKeyIsSecret (toAsciiLowercase (pre.take eq))
      · refine .covers ⟨eq, rfl, hkey⟩ (pre.take (eq + 1) ++ ARGV_HEAD_REDACTED) fun c hc => ?_
        rw [henv c hc, if_pos hkey]
      · refine .shows (by simpa using hkey) pre fun c hc => ?_
        rw [henv c hc, if_neg hkey]
        exact prefix_token pre c post

theorem frame_masks (hlong : 3 ≤ pre.length) :
    Masks (FrameHides pre post) fun c => maskTokenInline (pre ++ (c ++ post)) := by
  have hempty : IsWord [] := by simp [IsWord]
  unfold FrameHides
  rcases hspan : flagSpanOf pre post with - | n
  · -- no attached flag
    have hbare : ∀ c, IsWord c →
        maskTokenInline (pre ++ (c ++ post)) = maskBare (pre ++ (c ++ post)) := by
      intro c hc
      exact maskTokenInline_bare ((flagSpan_token hlong hpost hc).trans hspan)
    rw [or_iff_right (by simp)]
    refine Masks.congr ?_ hbare
    by_cases hheader : "--header=".toList <+: pre.toAsciiLowercase
    · have hle : 9 ≤ pre.length := by simpa using hheader.length_le
      rw [if_pos hheader]
      refine ((header_masks (pre.drop 9) hpost).prepend (pre.take 9)).congr fun c hc => ?_
      rw [maskBare_header ((closed_header.prefix_lower_iff hpost hc).mpr hheader),
        take_token hle, drop_token hle]
    · have hnot : ∀ c, IsWord c →
          ¬ "--header=".toList <+: (pre ++ (c ++ post)).toAsciiLowercase :=
        fun c hc hin => hheader ((closed_header.prefix_lower_iff hpost hc).mp hin)
      rw [if_neg hheader]
      cases urlCase pre hpost with
      | silent hurl =>
        have hnone : maskUrlUserinfo (pre ++ post) = none := hurl [] hempty
        rw [if_neg (by simp [hnone])]
        exact plain_masks hpost hnot hurl
      | hides hhides out hurl =>
        have hsome : maskUrlUserinfo (pre ++ post) = some out := hurl [] hempty
        rw [if_pos (by simp [hsome])]
        exact .covers hhides out fun c hc => maskBare_url (hnot c hc) (hurl c hc)
      | shows hshows q hurl =>
        obtain ⟨masked, hm, -⟩ := hurl [] hempty
        have hsome : maskUrlUserinfo (pre ++ post) = some masked := hm
        rw [if_pos (by simp [hsome])]
        refine .shows hshows q fun c hc => ?_
        obtain ⟨masked, hm, hq⟩ := hurl c hc
        exact maskBare_url (hnot c hc) hm ▸ hq
  · refine .covers (.inl rfl) (pre.take n ++ ARGV_HEAD_REDACTED) fun c hc => ?_
    rw [maskTokenInline_flag ((flagSpan_token hlong hpost hc).trans hspan),
      take_token (flagSpanOf_le hlong hspan)]

variable (hlong : 3 ≤ pre.length)

include hlong

theorem frame_hides_iff : (∀ c c', IsCredential c → IsCredential c' →
    maskTokenInline (pre ++ (c ++ post)) = maskTokenInline (pre ++ (c' ++ post))) ↔
      FrameHides pre post := by
  cases frame_masks hpost hlong with
  | covers hhides out hout =>
    refine iff_of_true (fun c c' hc hc' => ?_) hhides
    exact (hout c hc.word).trans (hout c' hc'.word).symm
  | shows hnot q hq =>
    refine iff_of_false (fun hall => ?_) hnot
    have hletter : ∀ d, alphanumeric d → IsCredential [d] :=
      fun d hd => ⟨by simp, by simpa [IsWord] using hd⟩
    have ha := hq ['a'] (hletter 'a' (by decide)).word
    have hb := hq ['b'] (hletter 'b' (by decide)).word
    rw [hall ['a'] ['b'] (hletter 'a' (by decide)) (hletter 'b' (by decide))] at ha
    have heq := (prefix_of_prefix_length_le ha hb (by simp)).eq_of_length (by simp)
    simp at heq

end Frame

/-! ## The three forms -/

inductive CredentialSite where
  | url (x scheme user y : Text) (hscheme : scheme ≠ [] ∧ IsWord scheme)
      (huser : ∀ c ∈ user, c ∉ "/?#:@".toList)
  | bearer (x label : Text) (hlabel : label.toAsciiLowercase = "bearer ".toList)
  | authorization (x label : Text) (hlabel : label.toAsciiLowercase = "authorization:".toList)

namespace CredentialSite

def pre : CredentialSite → Text
  | .url x scheme user _ _ _ => x ++ scheme ++ "://".toList ++ user ++ ":".toList
  | .bearer x label _ => x ++ label
  | .authorization x label _ => x ++ label

def post : CredentialSite → Text
  | .url _ _ _ y _ _ => '@' :: y
  | .bearer _ _ _ => []
  | .authorization _ _ _ => []

def token (site : CredentialSite) (credential : Text) : Text :=
  site.pre ++ (credential ++ site.post)

theorem post_endsUser (site : CredentialSite) : EndsUser site.post := by
  cases site with
  | url x scheme user y _ _ => exact .inr rfl
  | _ => exact .inl rfl

theorem three_le_length_pre (site : CredentialSite) : 3 ≤ site.pre.length := by
  cases site with
  | url x scheme user y _ _ =>
    simp only [pre, length_append, String.length_toList]
    have : "://".length = 3 := rfl
    omega
  | bearer x label hlabel =>
    have hlen := congrArg List.length hlabel
    rw [length_toAsciiLowercase] at hlen
    simp only [pre, length_append, hlen]
    have : "bearer ".toList.length = 7 := rfl
    omega
  | authorization x label hlabel =>
    have hlen := congrArg List.length hlabel
    rw [length_toAsciiLowercase] at hlen
    simp only [pre, length_append, hlen]
    have : "authorization:".toList.length = 14 := rfl
    omega

end CredentialSite

/-- **Inline credentials.** What `mask_token_inline` returns does not depend on a credential of one
of the three forms exactly if the first rule that fires on the token covers it. -/
theorem inline_credential_hidden_iff (site : CredentialSite) :
    (∀ c c', IsCredential c → IsCredential c' →
      maskTokenInline (site.token c) = maskTokenInline (site.token c')) ↔
    FrameHides site.pre site.post :=
  frame_hides_iff site.post_endsUser site.three_le_length_pre

theorem bearer_label : toAsciiLowercase "bearer ".toList = "bearer ".toList := by decide

def bearerBehindUrl : CredentialSite :=
  .bearer "http://a:b@h ".toList "bearer ".toList bearer_label

theorem ftp_scheme : "ftp".toList ≠ [] ∧ IsWord "ftp".toList := by
  refine ⟨by decide, ?_⟩
  unfold IsWord
  decide

theorem plain_user : ∀ c ∈ "u".toList, c ∉ "/?#:@".toList := by decide

def urlBehindUrl : CredentialSite :=
  .url "http://a:b@h?to=".toList "ftp".toList "u".toList "f".toList ftp_scheme plain_user

/-- The span that the first URL's mask covers shields the credential behind it. -/
theorem masked_url_shields :
    maskTokenInline (bearerBehindUrl.token "s3cret".toList) =
      "http://a:<redacted>@h bearer s3cret".toList ∧
    maskTokenInline (bearerBehindUrl.token "other".toList) =
      "http://a:<redacted>@h bearer other".toList ∧
    maskTokenInline (urlBehindUrl.token "s3cret".toList) =
      "http://a:<redacted>@h?to=ftp://u:s3cret@f".toList ∧
    maskTokenInline (urlBehindUrl.token "other".toList) =
      "http://a:<redacted>@h?to=ftp://u:other@f".toList := by
  decide +kernel

end TerminalCommander
