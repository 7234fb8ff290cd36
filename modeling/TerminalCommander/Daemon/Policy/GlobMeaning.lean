import TerminalCommander.Lib.Regex
import TerminalCommander.Daemon.Policy.Paths

/-!
# What a policy glob means

`glob_to_regex_src` of `daemon/src/policy.rs` translates a glob into the source text of an anchored
regular expression. `GlobMeans` says what a glob is meant to match. The source is read back as the
tokens that `GlobList` keeps (`parse_globToRegexSrc`), and these match what the glob means, except
that `**` becomes `.*`, and `.` is no newline (`isMatch_iff_globMeans`).
-/

namespace TerminalCommander

namespace Policy

open List Regex GlobToken GlobList

/-! ## The source text -/

def globBody : Text → Text
  | [] => []
  | '*' :: '*' :: rest => ".*".toList ++ globBody rest
  | '*' :: rest => "[^/]*".toList ++ globBody rest
  | '?' :: rest => "[^/]".toList ++ globBody rest
  | c :: rest => Regex.escape [c] ++ globBody rest

def globToRegexSrc (glob : Text) : Text := '^' :: (globBody glob ++ ['$'])

def GlobToken.piece : GlobToken → Regex.Piece
  | .anyRun => .star .dot
  | .segmentRun => .star (.except '/')
  | .one => .one (.except '/')
  | .literal c => .one (.literal c)

variable {rest : Text}

theorem globBody_star (h : ∀ r, rest = '*' :: r → False) :
    globBody ('*' :: rest) = "[^/]*".toList ++ globBody rest := by
  rw [globBody]
  exact h

theorem globBody_literal {c : Char} (h1 : ∀ r, c = '*' → rest = '*' :: r → False)
    (h2 : c = '*' → False) (h3 : c = '?' → False) :
    globBody (c :: rest) = escape [c] ++ globBody rest := by
  rw [globBody]
  · exact h1
  · exact h2
  · exact h3

theorem globBody_head (glob : Text) : (globBody glob ++ ['$']).head? ≠ some '*' := by
  fun_cases globBody glob with
  | case1 => simp
  | case2 rest => simp
  | case3 rest _ => simp
  | case4 rest => simp
  | case5 c rest _ _ _ =>
    rw [append_assoc]
    exact (head?_escape c _).2.2

theorem parseFrom_globBody (glob : Text) : ∀ n, (globBody glob).length < n →
    parseFrom n (globBody glob ++ ['$']) =
      some ((globToRegex glob).map piece ++ [.stop]) := by
  fun_induction globToRegex glob with
  | case1 =>
    intro n hn
    obtain ⟨n, rfl⟩ := Nat.exists_eq_add_of_lt hn
    show parseFrom (_ + 1) ['$'] = _
    rw [parseFrom, if_neg (by decide), if_pos rfl, parseFrom_nil]
    rfl
  | case2 rest ih =>
    intro n hn
    simp only [globBody, length_append] at hn
    obtain ⟨n, rfl⟩ := Nat.exists_eq_add_of_lt hn
    have hatom : parseAtom (".*".toList ++ (globBody rest ++ ['$'])) =
        some (.dot, '*' :: (globBody rest ++ ['$'])) := rfl
    rw [globBody, append_assoc, parseFrom_atom hatom ⟨by simp, by simp⟩, if_pos head?_cons, tail_cons,
      ih _ (by simp; omega)]
    rfl
  | case3 rest hrest ih =>
    intro n hn
    rw [globBody_star hrest] at hn ⊢
    rw [length_append] at hn
    obtain ⟨n, rfl⟩ := Nat.exists_eq_add_of_lt hn
    have hatom : parseAtom ("[^/]*".toList ++ (globBody rest ++ ['$'])) =
        some (.except '/', '*' :: (globBody rest ++ ['$'])) := rfl
    rw [append_assoc, parseFrom_atom hatom ⟨by simp, by simp⟩, if_pos head?_cons, tail_cons,
      ih _ (by simp; omega)]
    rfl
  | case4 rest ih =>
    intro n hn
    simp only [globBody, length_append] at hn
    obtain ⟨n, rfl⟩ := Nat.exists_eq_add_of_lt hn
    have hatom : parseAtom ("[^/]".toList ++ (globBody rest ++ ['$'])) =
        some (.except '/', globBody rest ++ ['$']) := rfl
    rw [globBody, append_assoc,
      parseFrom_atom hatom ⟨by simp, by simp⟩, if_neg (globBody_head rest), ih _ (by simp; omega)]
    rfl
  | case5 c rest h1 h2 h3 ih =>
    intro n hn
    rw [globBody_literal h1 h2 h3] at hn ⊢
    rw [length_append] at hn
    obtain ⟨n, rfl⟩ := Nat.exists_eq_add_of_lt hn
    obtain ⟨hstart, hstop, -⟩ := head?_escape c (globBody rest ++ ['$'])
    have hpos := length_escape_pos c
    rw [append_assoc, parseFrom_atom (parseAtom_escape c _) ⟨hstart, hstop⟩,
      if_neg (globBody_head rest), ih _ (by omega)]
    rfl

theorem parse_globToRegexSrc (glob : Text) : parse (globToRegexSrc glob) =
    some (.start :: ((globToRegex glob).map piece ++ [.stop])) := by
  unfold parse globToRegexSrc
  rw [length_cons, parseFrom, if_pos rfl, parseFrom_globBody glob _ (by simp)]
  rfl

/-! ## The meaning -/

def GlobMeans (any : Char → Prop) : Text → Text → Prop
  | [], t => t = []
  | '*' :: '*' :: glob, t =>
    ∃ run rest, t = run ++ rest ∧ (∀ c ∈ run, any c) ∧ GlobMeans any glob rest
  | '*' :: glob, t =>
    ∃ run rest, t = run ++ rest ∧ (∀ c ∈ run, c ≠ '/') ∧ GlobMeans any glob rest
  | '?' :: glob, t => ∃ c rest, t = c :: rest ∧ c ≠ '/' ∧ GlobMeans any glob rest
  | d :: glob, t => ∃ rest, t = d :: rest ∧ GlobMeans any glob rest

def GlobMatch (glob path : Text) : Prop := GlobMeans (fun _ => True) glob path

theorem globMeans_star {any : Char → Prop} (h : ∀ r, rest = '*' :: r → False)
    (t : Text) : GlobMeans any ('*' :: rest) t ↔
      ∃ run after, t = run ++ after ∧ (∀ c ∈ run, c ≠ '/') ∧ GlobMeans any rest after := by
  rw [GlobMeans]
  exact h

theorem globMeans_literal {any : Char → Prop} {c : Char}
    (h1 : ∀ r, c = '*' → rest = '*' :: r → False) (h2 : c = '*' → False) (h3 : c = '?' → False)
    (t : Text) :
    GlobMeans any (c :: rest) t ↔ ∃ after, t = c :: after ∧ GlobMeans any rest after := by
  rw [GlobMeans]
  · exact h1
  · exact h2
  · exact h3

theorem follows_iff_globMeans (glob : Text) : ∀ atStart t,
    Regex.Follows ((globToRegex glob).map piece ++ [.stop]) atStart t ↔
      GlobMeans (· ≠ '\n') glob t := by
  fun_induction globToRegex glob with
  | case1 => simp [Regex.Follows, GlobMeans]
  | case2 rest ih | case4 rest ih =>
    intro atStart t
    simp only [map_cons, cons_append, piece, Regex.Follows, GlobMeans, ih, Regex.Atom.Member]
  | case3 rest hrest ih =>
    intro atStart t
    rw [globMeans_star hrest]
    simp only [map_cons, cons_append, piece, Regex.Follows, ih, Regex.Atom.Member]
  | case5 c rest h1 h2 h3 ih =>
    intro atStart t
    rw [globMeans_literal h1 h2 h3]
    simp only [map_cons, cons_append, piece, Regex.Follows, ih, Regex.Atom.Member]
    constructor
    · rintro ⟨d, after, rfl, rfl, hafter⟩
      exact ⟨after, rfl, hafter⟩
    · rintro ⟨after, rfl, hafter⟩
      exact ⟨c, after, rfl, rfl, hafter⟩

theorem matchRun_iff (member : Char → Bool) (rest : Text → Bool) (t : Text) :
    matchRun member rest t ↔
      ∃ run after, t = run ++ after ∧ (∀ c ∈ run, member c) ∧ rest after := by
  induction t with
  | nil => simp [matchRun]
  | cons c t ih =>
    rw [matchRun, Bool.or_eq_true, Bool.and_eq_true, ih]
    constructor
    · rintro (hrest | ⟨hc, run, after, rfl, hrun, hrest⟩)
      · exact ⟨[], c :: t, rfl, by simp, hrest⟩
      · exact ⟨c :: run, after, rfl, by simpa [hc] using hrun, hrest⟩
    · rintro ⟨run, after, heq, hrun, hrest⟩
      cases run with
      | nil => exact .inl (heq ▸ hrest)
      | cons d run =>
        obtain ⟨rfl, rfl⟩ : c = d ∧ t = run ++ after := by simpa using heq
        exact .inr ⟨hrun c mem_cons_self, run, after, rfl,
          fun e he => hrun e (mem_cons_of_mem c he), hrest⟩

theorem isMatch_iff_follows (tokens : Glob) : ∀ atStart t, tokens.isMatch t ↔
    Regex.Follows (tokens.map piece ++ [.stop]) atStart t := by
  induction tokens with
  | nil => simp [Glob.isMatch, Regex.Follows]
  | cons token tokens ih =>
    intro atStart t
    cases token with
    | anyRun | segmentRun =>
      simp only [Glob.isMatch, matchRun_iff, map_cons, cons_append, piece,
        Regex.Follows, Regex.Atom.Member, ← ih, bne_iff_ne]
    | _ =>
      cases t with
      | nil => simp [Glob.isMatch, piece, Regex.Follows]
      | cons c t => simp [Glob.isMatch, piece, Regex.Follows, Regex.Atom.Member, ← ih]

variable {glob : Text}

theorem GlobMeans.mono {any any' : Char → Prop} {t : Text}
    (h : ∀ c ∈ t, any c → any' c) (hmeans : GlobMeans any glob t) : GlobMeans any' glob t := by
  fun_induction globToRegex glob generalizing t with
  | case1 => exact hmeans
  | case2 rest ih =>
    obtain ⟨run, after, rfl, hrun, hafter⟩ := hmeans
    exact ⟨run, after, rfl, fun c hc => h c (mem_append_left _ hc) (hrun c hc),
      ih (fun c hc => h c (mem_append_right _ hc)) hafter⟩
  | case3 rest hrest ih =>
    obtain ⟨run, after, rfl, hrun, hafter⟩ := (globMeans_star hrest t).mp hmeans
    exact (globMeans_star hrest _).mpr ⟨run, after, rfl, hrun,
      ih (fun c hc => h c (mem_append_right _ hc)) hafter⟩
  | case4 rest ih =>
    obtain ⟨c, after, rfl, hc, hafter⟩ := hmeans
    exact ⟨c, after, rfl, hc, ih (fun d hd => h d (mem_cons_of_mem c hd)) hafter⟩
  | case5 c rest h1 h2 h3 ih =>
    obtain ⟨after, rfl, hafter⟩ := (globMeans_literal h1 h2 h3 t).mp hmeans
    exact (globMeans_literal h1 h2 h3 _).mpr ⟨after, rfl,
      ih (fun d hd => h d (mem_cons_of_mem c hd)) hafter⟩

theorem globMatch_of_no_newline {path : Text} (h : '\n' ∉ path)
    (hmatch : GlobMatch glob path) : GlobMeans (· ≠ '\n') glob path :=
  GlobMeans.mono (fun _ hc _ heq => h (heq ▸ hc)) hmatch

/-! ## The entries of a list -/

theorem isMatch_iff_globMeans {compiles : Glob → Bool}
    (hcompiled : compiles (globToRegex glob)) (path : Text) :
    (compile compiles [glob]).isMatch path ↔ GlobMeans (· ≠ '\n') glob path := by
  have hentry : (compile compiles [glob]).isMatch path =
      (globToRegex glob).isMatch path := by
    simp [isMatch, compile, normalizePolicyPath, hcompiled]
  rw [hentry, isMatch_iff_follows _ true, follows_iff_globMeans]

/-- **What a policy glob means.** The source text of an entry that has been compiled is an
expression of which the entry's matches are the matches, and it means what the glob means exactly
if the path, should it match the glob, matches it in a way in which no `**` stands for a run with a
newline. -/
theorem glob_entry_means_iff (compiles : Glob → Bool) (glob path : Text)
    (hcompiled : compiles (globToRegex glob) = true) :
    (∃ re, Regex.parse (globToRegexSrc (normalizePolicyPath glob)) = some re ∧
      ((GlobList.compile compiles [glob]).isMatch path = true ↔
        Regex.IsMatch re (normalizePolicyPath path))) ∧
    (((GlobList.compile compiles [glob]).isMatch path = true ↔ GlobMatch glob path) ↔
      (GlobMatch glob path → GlobMeans (· ≠ '\n') glob path)) := by
  rw [isMatch_iff_globMeans hcompiled]
  constructor
  · refine ⟨_, parse_globToRegexSrc glob, ?_⟩
    rw [isMatch_start, follows_iff_globMeans]
    rfl
  · constructor
    · exact fun hiff => hiff.mpr
    · exact fun himp => ⟨GlobMeans.mono fun _ _ _ => trivial, himp⟩

/-- Every directory below a project, as the schema's example has it. -/
theorem project_glob_matches :
    (GlobList.compile (fun _ => true) ["/p/**/target/*".toList]).isMatch "/p/a/b/target/x".toList =
      true ∧ GlobMatch "/p/**/target/*".toList "/p/a/b/target/x".toList := by
  have hmatch : (compile (fun _ => true) ["/p/**/target/*".toList]).isMatch
      "/p/a/b/target/x".toList = true := by decide
  exact ⟨hmatch, ((glob_entry_means_iff (fun _ => true) "/p/**/target/*".toList
    "/p/a/b/target/x".toList rfl).2.mpr (globMatch_of_no_newline (by decide))).mp hmatch⟩

/-- A newline below the project: the glob means the path, the entry does not match it. -/
theorem newline_not_matched :
    GlobMatch "/p/**".toList "/p/a\nb".toList ∧
    (GlobList.compile (fun _ => true) ["/p/**".toList]).isMatch "/p/a\nb".toList = false := by
  refine ⟨?_, by decide⟩
  refine ⟨"p/a\nb".toList, rfl, "/a\nb".toList, rfl, "a\nb".toList, rfl, ?_⟩
  exact ⟨"a\nb".toList, [], rfl, fun _ _ => trivial, rfl⟩

end Policy

end TerminalCommander
