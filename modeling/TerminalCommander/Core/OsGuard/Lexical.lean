import TerminalCommander.Core.OsGuard.Path
import TerminalCommander.Lib.Segments

/-!
# What the classifiers leave of a path

The chain of rewrites of `is_os_critical_path`, on the list of a path's segments: turning
backslashes and collapsing separators keep the words (`words_collapseSeparators`), lowering keeps
the cuts, and `collapse` resolves the components as `LexicalPath.resolve` does.
-/

namespace TerminalCommander

namespace OsGuard

open LexicalPath ShellDeny Segments List Text Bool Component

/-! ## Separators -/

theorem slashed_cons (c : Char) (t : Text) :
    replaceChar '\\' '/' (c :: t) = (if c = '\\' then '/' else c) :: t.replaceChar '\\' '/' :=
  rfl

variable {c : Char}

theorem slashed_of_isSeparator (h : isSeparator c) :
    (if c = '\\' then '/' else c) = '/' := by
  unfold isSeparator at h
  rw [or_eq_true, beq_iff_eq, beq_iff_eq] at h
  rcases h with rfl | rfl <;> rfl

theorem splitOn_slashed (t : Text) :
    (t.replaceChar '\\' '/').splitOn '/' = t.splitOnP isSeparator := by
  induction t with
  | nil => rfl
  | cons c t ih =>
    rw [slashed_cons, splitOn_cons_eq_if_modifyHead, splitOnP_cons_eq_if_modifyHead, ih]
    cases hc : isSeparator c with
    | true => rw [slashed_of_isSeparator hc]; rfl
    | false =>
      have hslash : c ≠ '/' := by rintro rfl; cases hc
      have hback : c ≠ '\\' := by rintro rfl; cases hc
      rw [if_neg hback, if_neg (by simp [hslash]), if_neg Bool.false_ne_true]

theorem slashed_eq_self {t : Text} (h : '\\' ∉ t) : t.replaceChar '\\' '/' = t := by
  have hc : ∀ c ∈ t, (if c = '\\' then '/' else c) = id c := by
    intro c hc
    have hne : c ≠ '\\' := fun heq => h (heq ▸ hc)
    rw [if_neg hne, id]
  exact (map_congr_left hc).trans (List.map_id t)

theorem toLower_eq_slash : c.toLower = '/' ↔ c = '/' := by
  constructor
  · intro h
    rcases toLower_cases c with heq | hlow
    · rw [← heq, h]
    · rw [h] at hlow
      cases hlow
  · rintro rfl
    rfl

theorem splitOn_toAsciiLowercase (t : Text) :
    t.toAsciiLowercase.splitOn '/' = (t.splitOn '/').map toAsciiLowercase := by
  induction t with
  | nil => rfl
  | cons c t ih =>
    rw [show toAsciiLowercase (c :: t) = c.toLower :: toAsciiLowercase t from rfl,
      splitOn_cons_eq_if_modifyHead, splitOn_cons_eq_if_modifyHead, ih]
    by_cases hc : c = '/'
    · subst hc
      rfl
    · rw [if_neg (by simpa [toLower_eq_slash] using hc), if_neg (by simpa using hc)]
      cases t.splitOn '/' <;> rfl

theorem foldl_collapse (path : Text) : ∀ out : Text,
    path.foldl (fun out ch =>
        if ch = '/' ∧ out.getLast? = some '/' ∧ (if false then 1 else 0) < len out then out
        else out ++ [ch]) out =
      out ++ squeeze '/' (out.getLast? == some '/') path := by
  induction path with
  | nil => exact fun out => (append_nil out).symm
  | cons c path ih =>
    intro out
    rw [foldl_cons, ih, squeeze]
    by_cases hlast : c = '/' ∧ out.getLast? = some '/'
    · have hlen : (if false then 1 else 0) < len out := by
        rw [if_neg Bool.false_ne_true]
        exact len_pos (fun hnil => by rw [hnil] at hlast; cases hlast.2)
      have hguard := And.intro hlast.1 (And.intro hlast.2 hlen)
      rw [if_pos hguard, if_pos hlast.1, hlast.2]
      rfl
    · have hguard : ¬ (c = '/' ∧ out.getLast? = some '/' ∧
          (if false then 1 else 0) < len out) := fun h => hlast ⟨h.1, h.2.1⟩
      rw [if_neg hguard, getLast?_concat, append_assoc]
      by_cases hc : c = '/'
      · have hout : ¬ (out.getLast? == some '/') := by simpa [hc] using hlast
        rw [if_pos hc, if_neg hout, hc]
        rfl
      · rw [if_neg hc, show (some c == some '/') = false by simpa using hc]
        rfl

variable {host : Host}

theorem collapseSeparators_eq {path : Text} (h : isUnc host path = false) :
    collapseSeparators host path = squeeze '/' false path := by
  unfold collapseSeparators
  rw [h]
  exact foldl_collapse path []

theorem stripPrefix_eq_none {t p : Text} (h : ¬ p <+: t) : t.stripPrefix p = none := if_neg h

theorem plainOf_of_head (host : Host) {raw rest : Text} (hc : c ≠ '/')
    (hraw : raw.trim.replaceChar '\\' '/' = c :: rest) :
    plainOf host raw = some (squeeze '/' false (c :: rest)) := by
  have hstrip (p : Text) : stripPrefix (c :: rest) ('/' :: p) = none :=
    stripPrefix_eq_none fun h => hc (cons_prefix_cons.mp h).1.symm
  have hunc : isUnc host (c :: rest) = false := by
    unfold isUnc
    rw [show "//".toList = '/' :: ['/'] from rfl, hstrip, Bool.and_false]
  unfold plainOf
  rw [hraw]
  dsimp only
  rw [show "//?/".toList = '/' :: "/?/".toList from rfl, hstrip,
    show "//./".toList = '/' :: "/./".toList from rfl, hstrip]
  dsimp only [Option.or]
  rw [collapseSeparators_eq hunc]

/-! ## Joined names -/

variable {segs : List Text} {seg : Text}

theorem join_cons (hne : segs ≠ []) : join ['/'] (seg :: segs) = seg ++ '/' :: join ['/'] segs := by
  unfold join
  rw [intercalate_cons, if_neg hne]

variable {names : List Text}

theorem join_eq_nil_iff (hne : ∀ n ∈ names, n ≠ []) : join ['/'] names = [] ↔ names = [] := by
  refine ⟨fun h => ?_, fun h => by rw [h]; rfl⟩
  cases names with
  | nil => rfl
  | cons n names =>
    have hpre := Text.prefix_join ['/'] n names
    rw [h] at hpre
    exact absurd (prefix_nil.mp hpre) (hne n mem_cons_self)

theorem getLast?_join (hne : ∀ n ∈ names, n ≠ [])
    (hc : (join ['/'] names).getLast? = some c) : ∃ n ∈ names, n.getLast? = some c := by
  rcases eq_nil_or_concat' names with rfl | ⟨front, last, rfl⟩
  · cases hc
  · have hmem : last ∈ front ++ [last] := by simp
    refine ⟨last, hmem, hc ▸ ?_⟩
    by_cases hfront : front = []
    · subst hfront
      rw [nil_append, show join ['/'] [last] = last from intercalate_singleton]
    · rw [join_append hfront (by simp), show join ['/'] [last] = last from
        intercalate_singleton, ← append_assoc,
        getLast?_append_of_ne_nil _ (hne last hmem)]

theorem trimEnd_join (hne : ∀ n ∈ names, n ≠ []) {p : Char → Bool}
    (hp : ∀ n ∈ names, ∀ c ∈ n.getLast?, p c = false) :
    trimEndMatches p (join ['/'] names) = join ['/'] names := by
  refine rdropWhile_eq_self_iff.mpr fun hnil htrim => ?_
  obtain ⟨n, hn, hlast⟩ := getLast?_join hne (getLast?_eq_some_getLast hnil)
  rw [hp n hn _ hlast] at htrim
  cases htrim

theorem slashed_join (h : ∀ n ∈ names, '\\' ∉ n) :
    (join ['/'] names).replaceChar '\\' '/' = join ['/'] names := by
  refine slashed_eq_self fun hmem => ?_
  rcases mem_join hmem with hslash | ⟨n, hn, hmem⟩
  · cases hslash
  · exact h n hn hmem

/-! ## Devices -/

def NamesDisk (comps : List Text) : Prop :=
  ∃ comp ∈ comps, "physicaldrive".toList <:+: comp.toAsciiLowercase

instance (comps : List Text) : Decidable (NamesDisk comps) :=
  inferInstanceAs (Decidable (∃ comp ∈ comps, _))

theorem namesDisk_iff (t : Text) : NamesDisk (t.splitOnP isSeparator) ↔
    "physicaldrive".toList <:+: (t.replaceChar '\\' '/').toAsciiLowercase := by
  unfold NamesDisk
  rw [infix_iff_splitOn '/' (by decide), splitOn_toAsciiLowercase, splitOn_slashed]
  constructor
  · rintro ⟨comp, hcomp, h⟩
    exact ⟨_, List.mem_map_of_mem hcomp, h⟩
  · rintro ⟨part, hpart, h⟩
    obtain ⟨comp, hcomp, rfl⟩ := List.mem_map.mp hpart
    exact ⟨comp, hcomp, h⟩

theorem whiteSpace_of_isAlpha (h : c.isAlpha) : whiteSpace c = false := by
  rw [isAlpha_iff] at h
  unfold whiteSpace
  simp only [or_eq_false_iff, and_eq_false_iff, decide_eq_false_iff_not, beq_eq_false_iff_ne]
  omega

theorem namesDisk_trimEnd (t : Text) :
    NamesDisk (t.trimEnd.splitOnP isSeparator) ↔ NamesDisk (t.splitOnP isSeparator) := by
  have hblank : ∀ c ∈ (replaceChar '\\' '/' (t.rtakeWhile whiteSpace)).toAsciiLowercase,
      c ∉ "physicaldrive".toList := by
    intro c hc hmem
    obtain ⟨d, hd, rfl⟩ := List.mem_map.mp hc
    obtain ⟨e, he, rfl⟩ := List.mem_map.mp hd
    have hspace : whiteSpace e := mem_rtakeWhile_imp he
    have hback : e ≠ '\\' := fun heq => by rw [heq] at hspace; cases hspace
    rw [if_neg hback, toLower_of_whiteSpace hspace] at hmem
    have hall : ∀ d ∈ "physicaldrive".toList, whiteSpace d = false := by decide
    rw [hall e hmem] at hspace
    cases hspace
  have ht : t = t.trimEnd ++ t.rtakeWhile whiteSpace :=
    (rdropWhile_append_rtakeWhile).symm
  rw [namesDisk_iff, namesDisk_iff]
  conv_rhs => rw [ht]
  unfold replaceChar toAsciiLowercase at hblank ⊢
  rw [map_append, map_append, infix_append_of_disjoint (by decide) hblank]

def UnderDev (t : Text) : Prop :=
  ∃ dev, (t.replaceChar '\\' '/').toAsciiLowercase.stripPrefix "/dev/".toList = some dev ∧
    DISK_NAMES.any (fun p => p.isPrefixOf dev) = true

theorem isDiskDevice_iff (t : Text) :
    isDiskDevice t ↔ NamesDisk (t.splitOnP isSeparator) ∨ UnderDev t := by
  unfold isDiskDevice UnderDev
  rw [or_eq_true, find_isSome_iff, ← namesDisk_iff]
  refine or_congr_right ?_
  cases (t.replaceChar '\\' '/').toAsciiLowercase.stripPrefix "/dev/".toList <;> simp

/-! ## Components -/

theorem componentOf_name (hempty : seg ≠ []) (hdot : seg ≠ ".".toList)
    (hdots : seg ≠ "..".toList) : componentOf seg = .name seg := by
  unfold componentOf
  rw [if_neg (by simpa [hempty] using hdot), if_neg (by simpa using hdots)]

theorem componentOf_eq_name {name : Text} (h : componentOf seg = .name name) : seg = name := by
  unfold componentOf at h
  split_ifs at h
  exact Component.name.inj h

def isName (seg : Text) : Bool := !(seg.isEmpty || seg == ".".toList)

theorem resolveFrom_segments (h : "..".toList ∉ segs) : ∀ dir : List Text,
    resolveFrom dir (segs.map componentOf) = dir ++ segs.filter isName := by
  induction segs with
  | nil => exact fun dir => (append_nil dir).symm
  | cons seg segs ih =>
    intro dir
    have hdots : ¬ (seg == "..".toList) :=
      fun heq => h (beq_iff_eq.mp heq ▸ mem_cons_self)
    have hsegs := ih fun hmem => h (mem_cons_of_mem seg hmem)
    rw [map_cons, resolveFrom_cons, hsegs, filter_cons]
    unfold componentOf isName
    by_cases hhere : (seg.isEmpty || seg == ".".toList)
    · rw [if_pos hhere, if_neg (by rw [hhere]; exact false_ne_true), push]
    · rw [if_neg hhere, if_neg hdots, if_pos (by rw [eq_false_of_ne_true hhere]; rfl), push,
        append_assoc]
      rfl

theorem resolveFrom_filter (segs : List Text) : ∀ dir : List Text,
    resolveFrom dir ((segs.filter (!·.isEmpty)).map componentOf) =
      resolveFrom dir (segs.map componentOf) := by
  induction segs with
  | nil => exact fun dir => rfl
  | cons seg segs ih =>
    intro dir
    cases seg with
    | nil => exact ih dir
    | cons c seg =>
      rw [filter_cons_of_pos (by simp), map_cons, map_cons, resolveFrom_cons, resolveFrom_cons, ih]

theorem drive_of_hasDrive (h : hasDrive seg) : ∃ x, x.isAlpha ∧ seg.take 2 = [x, ':'] := by
  unfold hasDrive at h
  split at h
  · exact ⟨_, h, rfl⟩
  · cases h

theorem foldl_step_eq {cs : List (Component Text)}
    (h : ∀ seg, name seg ∈ cs → (host.windows && hasDrive seg) = false) :
    ∀ dir : List Text, cs.foldl (PathBuf.step host) ⟨[], dir⟩ = ⟨[], resolveFrom dir cs⟩ := by
  induction cs with
  | nil => exact fun dir => rfl
  | cons c cs ih =>
    intro dir
    have hcs := ih fun seg hseg => h seg (mem_cons_of_mem c hseg)
    rw [foldl_cons, resolveFrom_cons, ← hcs]
    cases c with
    | here => rfl
    | parent => rfl
    | name seg =>
      have hseg := h seg mem_cons_self
      simp only [PathBuf.step, PathBuf.push, hseg, false_eq_true, if_false, push]

theorem foldl_step_drive (cs : List (Component Text)) : ∀ out : PathBuf,
    (∃ x, x.isAlpha ∧ out.drive = [x, ':']) →
      ∃ x, x.isAlpha ∧ (cs.foldl (PathBuf.step host) out).drive = [x, ':'] := by
  induction cs with
  | nil => exact fun out h => h
  | cons c cs ih =>
    intro out h
    refine ih (out.step host c) ?_
    cases c with
    | here => exact h
    | parent => exact h
    | name seg =>
      rw [PathBuf.step, PathBuf.push]
      by_cases hdrive : (host.windows && hasDrive seg)
      · rw [if_pos hdrive]
        exact drive_of_hasDrive (and_eq_true_iff.mp hdrive).2
      · rw [if_neg hdrive]
        exact h

theorem foldl_step_name {cs : List (Component Text)}
    (hmem : name seg ∈ cs) (hdrive : (host.windows && hasDrive seg)) (out : PathBuf) :
    ∃ x, x.isAlpha ∧ (cs.foldl (PathBuf.step host) out).drive = [x, ':'] := by
  obtain ⟨before, after, rfl⟩ := append_of_mem hmem
  rw [foldl_append, foldl_cons]
  refine foldl_step_drive after _ ?_
  rw [PathBuf.step, PathBuf.push, if_pos hdrive]
  exact drive_of_hasDrive (and_eq_true_iff.mp hdrive).2

theorem components_unix (hhost : host.windows = false) (path : Text) : components host path =
      ⟨[], path.head? == some '/', (path.splitOn '/').map componentOf⟩ := by
  unfold components
  rw [hhost]
  rfl

theorem components_drive (hhost : host.windows) (hc : c.isAlpha) (rest : Text) :
    components host (c :: ':' :: '/' :: rest) =
      ⟨[c, ':'], true, .here :: (rest.splitOn '/').map componentOf⟩ := by
  have hunc : uncPrefix (c :: ':' :: '/' :: rest) = none := by
    unfold uncPrefix
    split
    · rename_i heq
      cases heq
    · rfl
  have hdrive : hasDrive (c :: ':' :: '/' :: rest) := hc
  unfold components
  rw [hhost, if_pos rfl, hunc]
  dsimp only
  rw [if_pos hdrive]
  rfl

theorem collapse_eq {path pre : Text} {hadRoot : Bool}
    (hcomps : components host path = ⟨pre, hadRoot, segs.map componentOf⟩)
    (hsegs : ∀ seg ∈ segs, (host.windows && hasDrive seg) = false) : collapse host path =
      let joined := pre ++ (if hadRoot then ['/'] else []) ++
        (join ['/'] (resolve (segs.map componentOf))).replaceChar '\\' '/'
      let trimmed := trimEndMatches (· == '/') joined
      if trimmed.isEmpty then joined else trimmed := by
  have hname : ∀ seg, name seg ∈ segs.map componentOf →
      (host.windows && hasDrive seg) = false := by
    intro seg hmem
    obtain ⟨seg', hmem', heq⟩ := List.mem_map.mp hmem
    rw [← componentOf_eq_name heq]
    exact hsegs seg' hmem'
  unfold collapse
  rw [hcomps]
  dsimp only
  rw [foldl_step_eq hname]
  rfl

end OsGuard

end TerminalCommander
