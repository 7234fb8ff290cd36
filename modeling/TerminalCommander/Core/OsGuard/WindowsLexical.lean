import TerminalCommander.Core.OsGuard.Lexical

/-!
# Drive paths and their lexical resolution

What `is_os_critical_path` says of a path `c:/...`: `windows_protected` drops the dots and blanks at
the end of every segment before it collapses the path, so that a segment `..` is gone when the
collapse looks for it. `critical_drive` is the verdict in terms of the names that are read.
-/

namespace TerminalCommander

namespace OsGuard

open LexicalPath ShellDeny Segments List Text Bool Component

def readSegment (seg : Text) : Text := Text.trimEndMatches isDotOrSpace seg.toAsciiLowercase

def readSegments (segs : List Text) : List Text := (segs.map readSegment).filter (!·.isEmpty)

def readNames (rest : Text) : List Text := readSegments (rest.splitOnP isSeparator)

def DriveProtected (host : Host) (letter : Char) (names : List Text) : Prop :=
  names = [] ∨
    (Text.toAsciiLowercase [letter, ':'] = systemDrive host ∧
      (∀ name ∈ names, (host.windows && hasDrive name) = false) ∧
      ((∃ tree ∈ WINDOWS_PROTECTED_SUBTREES, names.head? = some tree.tail) ∨
        ∃ root ∈ WINDOWS_PROTECTED_ROOTS, names = [root.tail]))

instance (host : Host) (letter : Char) (names : List Text) :
    Decidable (DriveProtected host letter names) :=
  inferInstanceAs (Decidable (_ ∨ _))

/-! ## The tables -/

variable {root : Text}

theorem single_segment (h : root ∈ WINDOWS_PROTECTED_SUBTREES ∨ root ∈ WINDOWS_PROTECTED_ROOTS) :
    root = '/' :: root.tail ∧ '/' ∉ root.tail ∧ 2 < root.length ∧ root[2]? ≠ some ':' := by
  have hall : ∀ root ∈ WINDOWS_PROTECTED_SUBTREES ++ WINDOWS_PROTECTED_ROOTS,
      root = '/' :: root.tail ∧ '/' ∉ root.tail ∧ 2 < root.length ∧ root[2]? ≠ some ':' := by decide +kernel
  exact hall root (mem_append.mpr h)

variable {names : List Text}

theorem treeHit_join (hne : names ≠ []) (hnames : ∀ n ∈ names, '/' ∉ n)
    {tree : Text} (htree : '/' ∉ tree) :
    treeHit ('/' :: join ['/'] names) ('/' :: tree) ↔ names.head? = some tree := by
  unfold treeHit join
  rw [or_eq_true, or_eq_true, beq_iff_eq, List.isPrefixOf_iff_prefix,
    List.isPrefixOf_iff_prefix, cons_inj_right, cons_append, cons_append,
    cons_prefix_cons, cons_prefix_cons, join_eq_iff hne htree,
    front_join_iff hnames htree]
  constructor
  · rintro ((h | ⟨-, h, -⟩) | ⟨-, h⟩)
    · rw [h]
      rfl
    · exact h
    · exact absurd (h.subset (by simp)) htree
  · intro h
    by_cases hone : names = [tree]
    · exact Or.inl (Or.inl hone)
    · exact Or.inl (Or.inr ⟨rfl, h, hone⟩)

theorem rootHit_join (hne : names ≠ []) (hroot : '/' ∉ root) :
    rootHit ('/' :: join ['/'] names) ('/' :: root) ↔ names = [root] := by
  unfold rootHit join
  rw [or_eq_true, beq_iff_eq, List.isPrefixOf_iff_prefix, cons_inj_right,
    cons_append, cons_prefix_cons, join_eq_iff hne hroot]
  constructor
  · rintro (h | ⟨-, h⟩)
    · exact h
    · exact absurd (h.subset (by simp)) hroot
  · exact Or.inl

theorem getElem?_of_treeHit {path : Text} (h : treeHit path root) {i : Nat}
    (hpath : i < path.length) (hroot : i < root.length) : path[i]? = root[i]? := by
  unfold treeHit at h
  rw [or_eq_true, or_eq_true, beq_iff_eq, List.isPrefixOf_iff_prefix,
    List.isPrefixOf_iff_prefix] at h
  rcases h with (rfl | ⟨more, rfl⟩) | ⟨more, rfl⟩
  · rfl
  · rw [append_assoc, getElem?_append_left hroot]
  · rw [append_assoc, getElem?_append_left hpath]

theorem treeHit_of_rootHit {path : Text} (h : rootHit path root) : treeHit path root := by
  unfold rootHit at h
  unfold treeHit
  rw [or_eq_true] at h ⊢
  exact h.imp_left fun heq => or_eq_true_iff.mpr (Or.inl heq)

def belowSystemDrive (path : Text) : Bool :=
  WINDOWS_PROTECTED_SUBTREES.any (treeHit path) || WINDOWS_PROTECTED_ROOTS.any (rootHit path)

theorem belowSystemDrive_join (hne : names ≠ []) (hnames : ∀ n ∈ names, '/' ∉ n) :
    belowSystemDrive ('/' :: join ['/'] names) ↔
      (∃ tree ∈ WINDOWS_PROTECTED_SUBTREES, names.head? = some tree.tail) ∨
        ∃ root ∈ WINDOWS_PROTECTED_ROOTS, names = [root.tail] := by
  unfold belowSystemDrive
  rw [or_eq_true, List.any_eq_true, List.any_eq_true]
  refine or_congr (exists_congr fun tree => and_congr_right fun hmem => ?_)
    (exists_congr fun root => and_congr_right fun hmem => ?_)
  · obtain ⟨htree, hslash, -⟩ := single_segment (Or.inl hmem)
    rw [htree]
    exact treeHit_join hne hnames hslash
  · obtain ⟨hroot, hslash, -⟩ := single_segment (Or.inr hmem)
    rw [hroot]
    exact rootHit_join hne hslash

theorem belowSystemDrive_drive (x : Char) (more : Text) :
    belowSystemDrive ('/' :: x :: ':' :: more) = false := by
  have hmiss : ∀ root, root ∈ WINDOWS_PROTECTED_SUBTREES ∨ root ∈ WINDOWS_PROTECTED_ROOTS →
      ¬ treeHit ('/' :: x :: ':' :: more) root := by
    intro root hmem hhit
    obtain ⟨-, -, hlen, hcolon⟩ := single_segment hmem
    exact hcolon (getElem?_of_treeHit hhit (i := 2) (by simp) hlen).symm
  unfold belowSystemDrive
  rw [or_eq_false_iff, List.any_eq_false, List.any_eq_false]
  exact ⟨fun root hmem => hmiss root (Or.inl hmem),
    fun root hmem hhit => hmiss root (Or.inr hmem) (treeHit_of_rootHit hhit)⟩

/-! ## The rewrites, one after the other -/

theorem systemDrive_eq (host : Host) : ∃ d, systemDrive host = [d, ':'] := by
  unfold systemDrive
  split
  · split_ifs
    · exact ⟨_, rfl⟩
    · exact ⟨'c', rfl⟩
  · exact ⟨'c', rfl⟩

variable {c : Char}

theorem windowsNormProtected_drive (host : Host) (hc : c ≠ '/') (z : Text) :
    windowsNormProtected host (c :: ':' :: '/' :: z) =
      (decide ([c, ':'] = systemDrive host) &&
        belowSystemDrive (trimEndMatches (· == '.') ('/' :: z))) := by
  have hlen : ¬ (len (c :: ':' :: '/' :: z) == 2 && byteIs (c :: ':' :: '/' :: z) 1 ':') =
      true := by
    have hpos := c.utf8Size_pos
    have hge : 2 < len (c :: ':' :: '/' :: z) := by
      rw [len, len, len, show ':'.utf8Size = 1 from rfl, show '/'.utf8Size = 1 from rfl]
      omega
    rw [Bool.and_eq_true, beq_iff_eq]
    exact fun h => by omega
  have hunc : ¬ "//".toList.isPrefixOf (c :: ':' :: '/' :: z) := by
    rw [List.isPrefixOf_iff_prefix]
    exact fun h => hc (cons_prefix_cons.mp h).1.symm
  obtain ⟨d, hd⟩ := systemDrive_eq host
  unfold windowsNormProtected
  rw [if_neg hlen, if_neg hunc, hd]
  by_cases hcd : c = d
  · subst hcd
    have hstrip : stripPrefix (c :: ':' :: '/' :: z) [c, ':'] = some ('/' :: z) := by
      unfold stripPrefix
      rw [if_pos ⟨'/' :: z, rfl⟩]
      rfl
    rw [hstrip, decide_eq_true rfl, Bool.true_and]
    rfl
  · have hstrip : stripPrefix (c :: ':' :: '/' :: z) [d, ':'] = none := by
      unfold stripPrefix
      rw [if_neg fun h => hcd (cons_prefix_cons.mp h).1.symm]
    rw [hstrip, decide_eq_false fun h => hcd (List.cons.inj h).1, Bool.false_and]

theorem isAlpha_ne {d : Char} (hc : c.isAlpha) (hd : d.isAlpha = false) : c ≠ d := by
  rintro rfl
  rw [hc] at hd
  cases hd

def Trimmed (segs : List Text) : Prop :=
  ∀ seg ∈ segs, '/' ∉ seg ∧ '\\' ∉ seg ∧ ∀ c ∈ seg.getLast?, isDotOrSpace c = false

variable {segs : List Text}

section

variable (h : Trimmed segs)

include h

theorem Trimmed.not_dots {seg : Text} (hmem : seg ∈ segs) :
    seg ≠ ".".toList ∧ seg ≠ "..".toList := by
  constructor <;> rintro rfl <;> cases (h _ hmem).2.2 '.' rfl

theorem Trimmed.resolve_eq :
    resolve (segs.map componentOf) = segs.filter (!·.isEmpty) := by
  have hname : ∀ seg ∈ segs, isName seg = !seg.isEmpty := by
    intro seg hmem
    unfold isName
    rw [beq_eq_false_iff_ne.mpr (h.not_dots hmem).1, Bool.or_false]
  unfold resolve
  rw [resolveFrom_segments fun hmem => (h.not_dots hmem).2 rfl, nil_append]
  exact filter_congr hname

theorem Trimmed.filter (p : Text → Bool) :
    Trimmed (segs.filter p) := fun seg hmem => h seg (mem_of_mem_filter hmem)

theorem Trimmed.splitOn_join (hne : segs ≠ []) :
    (join ['/'] segs).splitOn '/' = segs :=
  splitOn_intercalate '/' (fun seg hmem => (h seg hmem).1) hne

theorem Trimmed.trimEnd_join (hne : ∀ seg ∈ segs, seg ≠ [])
    {p : Char → Bool} (hp : ∀ c, p c → c = '/' ∨ isDotOrSpace c) :
    trimEndMatches p (join ['/'] segs) = join ['/'] segs := by
  refine OsGuard.trimEnd_join hne fun seg hseg c hc => eq_false_of_ne_true fun htrim => ?_
  obtain ⟨hslash, -, hdot⟩ := h seg hseg
  rcases hp c htrim with rfl | hds
  · exact hslash (mem_of_getLast? hc)
  · rw [hdot c hc] at hds
    cases hds

theorem Trimmed.cons_drive (hc : c.isAlpha) : Trimmed ([c, ':'] :: segs) := by
  intro seg hmem
  rcases mem_cons.mp hmem with rfl | hmem
  · refine ⟨?_, ?_, ?_⟩
    · simp [(isAlpha_ne hc rfl : c ≠ '/').symm]
    · simp [(isAlpha_ne hc rfl : c ≠ '\\').symm]
    · intro d hd
      obtain rfl := Option.some.inj hd
      rfl
  · exact h seg hmem

end

variable {host : Host}

theorem collapse_drive (hc : c.isAlpha) (h : Trimmed segs) (hne : segs ≠ [])
    (hdrive : ∀ seg ∈ segs, (host.windows && hasDrive seg) = false) :
    collapse host (c :: ':' :: '/' :: join ['/'] segs) =
      join ['/'] ([c, ':'] :: segs.filter (!·.isEmpty)) := by
  have hnames : ∀ seg ∈ [c, ':'] :: segs.filter (!·.isEmpty), seg ≠ [] := by
    intro seg hmem
    rcases mem_cons.mp hmem with rfl | hmem
    · exact cons_ne_nil _ _
    · simpa using (List.mem_filter.mp hmem).2
  have hall : Trimmed ([c, ':'] :: segs.filter (!·.isEmpty)) := (h.filter _).cons_drive hc
  have htrim := hall.trimEnd_join hnames (p := (· == '/')) fun d hd => Or.inl (beq_iff_eq.mp hd)
  have hnil : ¬ (join ['/'] ([c, ':'] :: segs.filter (!·.isEmpty))).isEmpty := by
    obtain ⟨more, hmore⟩ := Text.prefix_join ['/'] [c, ':'] (segs.filter (!·.isEmpty))
    rw [← hmore]
    simp
  cases hhost : host.windows with
  | false =>
    -- without drives the whole path is a list of names
    have hcomps : components host (c :: ':' :: '/' :: join ['/'] segs) =
        ⟨[], false, ([c, ':'] :: segs).map componentOf⟩ := by
      rw [components_unix hhost, ← (h.cons_drive hc).splitOn_join (cons_ne_nil _ _), join_cons hne]
      simpa using (isAlpha_ne hc rfl : c ≠ '/')
    have hres : resolve (([c, ':'] :: segs).map componentOf) =
        [c, ':'] :: segs.filter (!·.isEmpty) := (h.cons_drive hc).resolve_eq
    rw [collapse_eq hcomps (fun seg _ => by rw [hhost]; rfl), hres,
      slashed_join fun n hn => (hall n hn).2.1]
    dsimp only
    rw [if_neg Bool.false_ne_true, nil_append, nil_append, htrim, if_neg hnil]
  | true =>
    have hcomps : components host (c :: ':' :: '/' :: join ['/'] segs) =
        ⟨[c, ':'], true, ([] :: segs).map componentOf⟩ := by
      rw [components_drive hhost hc, h.splitOn_join hne]
      rfl
    have hres : resolve (([] :: segs).map componentOf) = segs.filter (!·.isEmpty) := h.resolve_eq
    rw [collapse_eq hcomps (forall_mem_cons.mpr ⟨by rw [hhost]; rfl, hdrive⟩), hres,
      slashed_join fun n hn => (h.filter _ n hn).2.1]
    dsimp only
    rw [if_pos rfl, append_assoc]
    by_cases hempty : segs.filter (!·.isEmpty) = []
    · rw [hempty]
      rfl
    · rw [join_cons hempty] at htrim hnil ⊢
      rw [singleton_append, htrim, if_neg hnil]

theorem collapse_off (hc : c.isAlpha)
    (h : Trimmed segs) (hne : segs ≠ []) {seg : Text} (hmem : seg ∈ segs)
    (hdrive : (host.windows && hasDrive seg)) :
    ∃ x more, collapse host (c :: ':' :: '/' :: join ['/'] segs) =
      c :: ':' :: '/' :: x :: ':' :: more := by
  obtain ⟨hhost, hseg⟩ := and_eq_true_iff.mp hdrive
  have hempty : seg ≠ [] := fun heq => by rw [heq] at hseg; cases hseg
  obtain ⟨hdot, hdots⟩ := h.not_dots hmem
  have hname : name seg ∈ here :: segs.map componentOf := by
    refine mem_cons_of_mem _ (List.mem_map.mpr ⟨seg, hmem, ?_⟩)
    exact componentOf_name hempty hdot hdots
  obtain ⟨x, hx, hout⟩ := foldl_step_name hname hdrive ⟨[], []⟩
  unfold collapse
  rw [components_drive hhost hc, h.splitOn_join hne]
  dsimp only
  generalize List.foldl (PathBuf.step host) ⟨[], []⟩ (here :: segs.map componentOf) = out
    at hout ⊢
  have hback : (if x = '\\' then '/' else x) = x := if_neg (isAlpha_ne hx rfl)
  have htext : out.text.replaceChar '\\' '/' =
      x :: ':' :: (join ['/'] out.names).replaceChar '\\' '/' := by
    unfold PathBuf.text
    rw [hout, cons_append, cons_append, nil_append, slashed_cons, slashed_cons, hback]
    rfl
  rw [htext, if_pos rfl]
  generalize (join ['/'] out.names).replaceChar '\\' '/' = more
  refine ⟨x, trimEndMatches (· == '/') more, ?_⟩
  have htrim : trimEndMatches (· == '/') ([c, ':'] ++ ['/'] ++ x :: ':' :: more) =
      [c, ':', '/', x] ++ ':' :: trimEndMatches (· == '/') more :=
    rdropWhile_append_cons (p := (· == '/')) (x := ':') rfl [c, ':', '/', x] more
  rw [htrim]
  rfl

/-! ## The verdict on names -/

theorem toLower_isAlpha (hc : c.isAlpha) : c.toLower.isAlpha := by
  rcases toLower_cases c with heq | hlow
  · rw [heq, hc]
  · exact isAlpha_iff.mpr (.inr (isLower_iff.mp hlow))

theorem windowsNormProtected_names (hc : c.isAlpha) (h : Trimmed names)
    (hne : ∀ n ∈ names, n ≠ []) : windowsNormProtected host (join ['/'] ([c, ':'] :: names)) ↔
      names = [] ∨ ([c, ':'] = systemDrive host ∧
        ((∃ tree ∈ WINDOWS_PROTECTED_SUBTREES, names.head? = some tree.tail) ∨
          ∃ root ∈ WINDOWS_PROTECTED_ROOTS, names = [root.tail])) := by
  by_cases hnil : names = []
  · subst hnil
    have hlen : len [c, ':'] = 2 := by
      rw [len, utf8Size_of_isAlpha hc]
      rfl
    have hcolon : byteIs [c, ':'] 1 ':' :=
      byteIs_one_iff.mpr ⟨c, [], rfl, utf8Size_of_isAlpha hc⟩
    have hbare : windowsNormProtected host [c, ':'] := by
      unfold windowsNormProtected
      rw [hlen, hcolon]
      rfl
    exact ⟨fun _ => Or.inl rfl, fun _ => hbare⟩
  · have htrim : trimEndMatches (· == '.') ('/' :: join ['/'] names) =
        '/' :: join ['/'] names := by
      have hjoin := h.trimEnd_join hne (p := (· == '.')) fun d hd => by
        rw [beq_iff_eq.mp hd]
        exact Or.inr rfl
      exact (rdropWhile_append_cons (p := (· == '.')) (x := '/') rfl [] _).trans
        (congrArg (List.cons '/') hjoin)
    rw [join_cons hnil, cons_append, cons_append, nil_append,
      windowsNormProtected_drive host (isAlpha_ne hc rfl), htrim, and_eq_true,
      decide_eq_true_eq, belowSystemDrive_join hnil fun n hn => (h n hn).1]
    exact ⟨Or.inr, fun hor => hor.resolve_left hnil⟩

theorem not_mem_trimEndMatches {p : Char → Bool} {t : Text} (h : c ∉ t) : c ∉ trimEndMatches p t :=
  fun hmem => h ((List.rdropWhile_prefix p t).subset hmem)

variable {rest : Text}

theorem trimmed_readSegment (hback : '\\' ∉ rest) :
    Trimmed ((rest.splitOn '/').map readSegment) := by
  intro seg hmem
  obtain ⟨part, hpart, rfl⟩ := List.mem_map.mp hmem
  unfold readSegment
  obtain ⟨hslash, hsub⟩ := part_of_mem_splitOn hpart
  refine ⟨not_mem_trimEndMatches fun h => ?_, not_mem_trimEndMatches fun h => ?_, ?_⟩
  · exact hslash (mem_of_mem_toAsciiLowercase rfl h)
  · exact hback (hsub (mem_of_mem_toAsciiLowercase rfl h))
  · intro c hc
    obtain ⟨hne, rfl⟩ := mem_getLast?_eq_getLast hc
    exact eq_false_of_ne_true (rdropWhile_last_not isDotOrSpace _ hne)

theorem trimSegments_drive (hc : c.isAlpha) (rest : Text) :
    trimSegments (c :: ':' :: '/' :: rest.toAsciiLowercase) =
      c :: ':' :: '/' :: join ['/'] ((rest.splitOn '/').map readSegment) := by
  have hsplit : (c :: ':' :: '/' :: rest.toAsciiLowercase).splitOn '/' =
      [c, ':'] :: (rest.splitOn '/').map toAsciiLowercase := by
    rw [← splitOn_toAsciiLowercase]
    have hslash : '/' ∉ [c, ':'] := by simp [(isAlpha_ne hc rfl : c ≠ '/').symm]
    exact splitOn_append_cons_self_of_not_mem hslash rest.toAsciiLowercase
  unfold trimSegments
  rw [hsplit, map_cons, List.map_map, join_cons (by simp [splitOn_ne_nil])]
  rfl

variable {letter : Char}

theorem windowsVerdict_drive (host : Host) (hletter : letter.isAlpha) (hback : '\\' ∉ rest) :
    windowsVerdict host (letter :: ':' :: '/' :: rest) ↔
      DriveProtected host letter (readSegments (rest.splitOn '/')) := by
  have hc := toLower_isAlpha hletter
  have hsegs := trimmed_readSegment hback
  have hne : (rest.splitOn '/').map readSegment ≠ [] := by simp [splitOn_ne_nil]
  have hrooted : driveRooted (toAsciiLowercase (letter :: ':' :: '/' :: rest)) =
      letter.toLower :: ':' :: '/' :: rest.toAsciiLowercase := if_neg fun h => h.2 rfl
  unfold windowsVerdict DriveProtected readSegments
  rw [hrooted, trimSegments_drive hc]
  generalize (rest.splitOn '/').map readSegment = segs at hsegs hne ⊢
  by_cases hdrive : ∀ seg ∈ segs, (host.windows && hasDrive seg) = false
  · rw [collapse_drive hc hsegs hne hdrive,
      windowsNormProtected_names hc (hsegs.filter _) (by simp)]
    have hnames : ∀ name ∈ segs.filter (!·.isEmpty), (host.windows && hasDrive name) = false :=
      fun name hmem => hdrive name (mem_of_mem_filter hmem)
    exact or_congr_right (and_congr_right fun _ => (and_iff_right hnames).symm)
  · push Not at hdrive
    obtain ⟨seg, hmem, hseg⟩ := hdrive
    rw [Bool.ne_false_iff] at hseg
    obtain ⟨x, more, hcollapse⟩ := collapse_off hc hsegs hne hmem hseg
    have hname : seg ∈ segs.filter (!·.isEmpty) := by
      refine List.mem_filter.mpr ⟨hmem, ?_⟩
      cases seg with
      | nil => simp [hasDrive] at hseg
      | cons => rfl
    have htrim : trimEndMatches (· == '.') ('/' :: x :: ':' :: more) =
        '/' :: x :: ':' :: trimEndMatches (· == '.') more :=
      rdropWhile_append_cons (p := (· == '.')) (x := ':') rfl ['/', x] more
    rw [hcollapse, windowsNormProtected_drive host (isAlpha_ne hc rfl), htrim,
      belowSystemDrive_drive, Bool.and_false]
    refine ⟨fun h => absurd h Bool.false_ne_true, ?_⟩
    rintro (h | ⟨-, hnames, -⟩)
    · rw [h] at hname
      cases hname
    · rw [hnames seg hname] at hseg
      cases hseg

/-! ## The verdict on a path -/

def DriveRefused (host : Host) (letter : Char) (rest : Text) : Prop :=
  NamesDisk (rest.splitOnP isSeparator) ∨ DriveProtected host letter (readNames rest.trimEnd)

instance (host : Host) (letter : Char) (rest : Text) : Decidable (DriveRefused host letter rest) :=
  inferInstanceAs (Decidable (_ ∨ _))

variable {sep : Char}

theorem trim_drive (hletter : letter.isAlpha) (hsep : isSeparator sep) (rest : Text) :
    trim (letter :: ':' :: sep :: rest) = letter :: ':' :: sep :: rest.trimEnd := by
  have hblank : whiteSpace sep = false := by
    unfold isSeparator at hsep
    rw [or_eq_true, beq_iff_eq, beq_iff_eq] at hsep
    rcases hsep with rfl | rfl <;> rfl
  have hstart : trimStart (letter :: ':' :: sep :: rest) = letter :: ':' :: sep :: rest :=
    dropWhile_cons_of_neg (by rw [whiteSpace_of_isAlpha hletter]; exact false_ne_true)
  unfold trim
  rw [hstart]
  exact rdropWhile_append_cons hblank [letter, ':'] rest

theorem isDiskDevice_drive (hletter : letter.isAlpha) (hsep : isSeparator sep) (rest : Text) :
    isDiskDevice (letter :: ':' :: sep :: rest) ↔ NamesDisk (rest.splitOnP isSeparator) := by
  have hl : isSeparator letter = false := by
    unfold isSeparator
    simp [(isAlpha_ne hletter rfl : letter ≠ '/'), (isAlpha_ne hletter rfl : letter ≠ '\\')]
  have hsplit : (letter :: ':' :: sep :: rest).splitOnP isSeparator =
      [letter, ':'] :: rest.splitOnP isSeparator := by
    rw [splitOnP_cons_eq_if_modifyHead, splitOnP_cons_eq_if_modifyHead,
      splitOnP_cons_eq_if_modifyHead, if_pos hsep, hl]
    rfl
  have hdev : ¬ UnderDev (letter :: ':' :: sep :: rest) := by
    rintro ⟨dev, hdev, -⟩
    have hfirst : letter.toLower ≠ '/' := isAlpha_ne (toLower_isAlpha hletter) rfl
    have hback : letter ≠ '\\' := isAlpha_ne hletter rfl
    unfold stripPrefix at hdev
    split_ifs at hdev with hpre
    rw [slashed_cons, if_neg hback] at hpre
    exact hfirst (cons_prefix_cons.mp hpre).1.symm
  have hshort : ¬ "physicaldrive".toList <:+: toAsciiLowercase [letter, ':'] := by
    intro h
    have hlen := h.length_le
    simp [toAsciiLowercase] at hlen
  rw [isDiskDevice_iff, or_iff_left hdev, hsplit]
  unfold NamesDisk
  rw [exists_mem_cons_iff, or_iff_right hshort]

theorem plainOf_drive (host : Host) (hletter : letter.isAlpha)
    (hsep : isSeparator sep) (rest : Text) : plainOf host (letter :: ':' :: sep :: rest) =
      some (letter :: ':' :: '/' :: squeeze '/' true (rest.trimEnd.replaceChar '\\' '/')) := by
  have hback : letter ≠ '\\' := isAlpha_ne hletter rfl
  have hslash : letter ≠ '/' := isAlpha_ne hletter rfl
  have hraw : (trim (letter :: ':' :: sep :: rest)).replaceChar '\\' '/' =
      letter :: ':' :: '/' :: rest.trimEnd.replaceChar '\\' '/' := by
    rw [trim_drive hletter hsep, slashed_cons, slashed_cons, slashed_cons, if_neg hback,
      slashed_of_isSeparator hsep]
    rfl
  rw [plainOf_of_head host hslash hraw, squeeze, if_neg hslash]
  rfl

theorem readSegments_filter (segs : List Text) :
    readSegments (segs.filter (!·.isEmpty)) = readSegments segs := by
  induction segs with
  | nil => rfl
  | cons seg segs ih =>
    cases seg with
    | nil => exact ih
    | cons c seg =>
      unfold readSegments at ih ⊢
      rw [filter_cons_of_pos (by simp), map_cons, map_cons, filter_cons, filter_cons, ih]

theorem not_mem_slashed (t : Text) : '\\' ∉ t.replaceChar '\\' '/' := by
  intro hmem
  obtain ⟨c, -, hc⟩ := List.mem_map.mp hmem
  split_ifs at hc with hback
  · cases hc
  · exact hback hc

theorem pathVerdict_drive (host : Host) (hletter : letter.isAlpha)
    (rest : Text) : pathVerdict host (letter :: ':' :: rest) =
      windowsVerdict host (letter :: ':' :: rest) := by
  have hslash : letter ≠ '/' := isAlpha_ne hletter rfl
  have hmount : mountOf (letter :: ':' :: rest) = none := by
    have hpre : ¬ "/mnt/".toList <+: letter :: ':' :: rest :=
      fun h => hslash (cons_prefix_cons.mp h).1.symm
    unfold mountOf stripPrefix
    rw [if_neg hpre]
  have hlooks : looksWindows (letter :: ':' :: rest) :=
    or_eq_true_iff.mpr (Or.inl hletter)
  unfold pathVerdict
  rw [hmount]
  dsimp only
  rw [if_pos hlooks]

theorem critical_drive (host : Host) (hletter : letter.isAlpha)
    (hsep : isSeparator sep) (rest : Text) :
    critical host (letter :: ':' :: sep :: rest) ↔ DriveRefused host letter rest := by
  have hnames : readSegments ((squeeze '/' true (rest.trimEnd.replaceChar '\\' '/')).splitOn '/') =
      readNames rest.trimEnd := by
    unfold readNames
    rw [← splitOn_slashed, ← readSegments_filter, ← readSegments_filter (splitOn _ _)]
    exact congrArg readSegments (words_squeeze _ true)
  have htrim : rest.trimEnd.trimEnd = rest.trimEnd := rdropWhile_idempotent whiteSpace rest
  have hback : '\\' ∉ squeeze '/' true (rest.trimEnd.replaceChar '\\' '/') :=
    fun hmem => not_mem_slashed _ ((squeeze_sublist _ true).subset hmem)
  unfold critical
  rw [trim_drive hletter hsep]
  dsimp only [isEmpty_cons]
  rw [if_neg Bool.false_ne_true, plainOf_drive host hletter hsep, htrim, Bool.or_eq_true,
    isDiskDevice_drive hletter hsep, namesDisk_trimEnd]
  dsimp only
  rw [pathVerdict_drive host hletter, windowsVerdict_drive host hletter hback, hnames]
  rfl

/-! ## A path and its resolution -/

def driveResolved (rest : Text) : Text :=
  Text.join ['/'] (resolve ((rest.splitOnP isSeparator).map componentOf))

theorem readSegments_cons (seg : Text) (segs : List Text) :
    readSegments (seg :: segs) = readSegments [seg] ++ readSegments segs := by
  unfold readSegments
  rw [← filter_append]
  rfl

theorem readSegments_blank (xs : Text) :
    readSegments ((xs ++ [' ']).splitOn '/') = readSegments (xs.splitOn '/') := by
  induction hlen : xs.length using Nat.strong_induction_on generalizing xs with
  | _ n ih =>
    subst hlen
    rcases cut_at_sep '/' xs with hnot | ⟨front, rest, rfl, hfront⟩
    · have hmore : '/' ∉ xs ++ [' '] := by simpa using hnot
      have hread : readSegment (xs ++ [' ']) = readSegment xs := by
        unfold readSegment toAsciiLowercase
        rw [map_append]
        exact rdropWhile_concat_pos isDotOrSpace _ ' ' rfl
      rw [splitOn_eq_singleton hmore, splitOn_eq_singleton hnot]
      unfold readSegments
      rw [map_singleton, map_singleton, hread]
    · rw [append_assoc, cons_append, splitOn_append_cons_self_of_not_mem hfront,
        splitOn_append_cons_self_of_not_mem hfront, readSegments_cons,
        ih rest.length (by simp; omega) rest rfl, ← readSegments_cons]

theorem readNames_append {blanks : Text} (h : ∀ c ∈ blanks, c = ' ') (t : Text) :
    readNames (t ++ blanks) = readNames t := by
  induction blanks using reverseRecOn with
  | nil => rw [append_nil]
  | append_singleton blanks c ih =>
    obtain rfl := h c (by simp)
    rw [← ih fun d hd => h d (mem_append_left _ hd)]
    unfold readNames
    rw [← splitOn_slashed, ← splitOn_slashed, ← append_assoc]
    unfold replaceChar
    rw [map_append]
    exact readSegments_blank _

theorem readNames_trimEnd {t : Text} (h : ∀ c ∈ t, whiteSpace c → c = ' ') :
    readNames t.trimEnd = readNames t := by
  have ht : t.trimEnd ++ t.rtakeWhile whiteSpace = t := rdropWhile_append_rtakeWhile
  have hblanks : ∀ c ∈ t.rtakeWhile whiteSpace, c = ' ' :=
    fun c hc => h c (ht ▸ mem_append_right _ hc) (mem_rtakeWhile_imp hc)
  conv_rhs => rw [← ht]
  exact (readNames_append hblanks t.trimEnd).symm

theorem readSegments_isName (segs : List Text) :
    readSegments (segs.filter isName) = readSegments segs := by
  induction segs with
  | nil => rfl
  | cons seg segs ih =>
    rw [filter_cons]
    split_ifs with hname
    · rw [readSegments_cons, ih, ← readSegments_cons]
    · unfold isName at hname
      rw [not_eq_true, not_eq_false', or_eq_true, List.isEmpty_iff, beq_iff_eq] at hname
      rw [ih, readSegments_cons seg]
      rcases hname with rfl | rfl <;> rfl

theorem namesDisk_isName (segs : List Text) : NamesDisk (segs.filter isName) ↔ NamesDisk segs := by
  constructor
  · rintro ⟨comp, hcomp, h⟩
    exact ⟨comp, mem_of_mem_filter hcomp, h⟩
  · rintro ⟨comp, hcomp, h⟩
    refine ⟨comp, List.mem_filter.mpr ⟨hcomp, ?_⟩, h⟩
    unfold isName
    rw [not_eq_true', or_eq_false_iff, isEmpty_eq_false_iff, beq_eq_false_iff_ne]
    constructor
    · rintro rfl
      exact absurd h (by decide)
    · rintro rfl
      exact absurd h (by decide)

theorem splitOnP_join (h : ∀ n ∈ names, '/' ∉ n ∧ '\\' ∉ n) :
    (join ['/'] names).splitOnP isSeparator = if names = [] then [[]] else names := by
  split_ifs with hnil
  · subst hnil
    rfl
  · rw [← splitOn_slashed, slashed_join fun n hn => (h n hn).2]
    exact splitOn_intercalate '/' (fun n hn => (h n hn).1) hnil

theorem component_of_mem {comp : Text} (h : comp ∈ rest.splitOnP isSeparator) :
    '/' ∉ comp ∧ '\\' ∉ comp ∧ comp ⊆ rest := by
  obtain ⟨hsep, hsub⟩ := part_of_mem_splitOnP h
  exact ⟨fun hmem => Bool.noConfusion (hsep '/' hmem), fun hmem => Bool.noConfusion (hsep '\\' hmem),
    hsub⟩

theorem driveRefused_resolved (hup : "..".toList ∉ rest.splitOnP isSeparator)
    (hblank : ∀ c ∈ rest, whiteSpace c → c = ' ') (host : Host) (letter : Char) :
    DriveRefused host letter rest ↔ DriveRefused host letter (driveResolved rest) := by
  have hres : driveResolved rest =
      join ['/'] ((rest.splitOnP isSeparator).filter isName) :=
    congrArg (join ['/']) (resolveFrom_segments hup [])
  have hcomps : ∀ n ∈ (rest.splitOnP isSeparator).filter isName, '/' ∉ n ∧ '\\' ∉ n := by
    intro n hn
    obtain ⟨hslash, hback, -⟩ := component_of_mem (mem_of_mem_filter hn)
    exact ⟨hslash, hback⟩
  have hspace : ∀ c ∈ driveResolved rest, whiteSpace c → c = ' ' := by
    intro c hc hws
    rw [hres] at hc
    rcases mem_join hc with rfl | ⟨n, hn, hmem⟩
    · cases hws
    · exact hblank c ((component_of_mem (mem_of_mem_filter hn)).2.2 hmem) hws
  unfold DriveRefused
  rw [readNames_trimEnd hblank, readNames_trimEnd hspace, hres]
  unfold readNames
  rw [splitOnP_join hcomps, ← namesDisk_isName, ← readSegments_isName]
  by_cases hnil : (rest.splitOnP isSeparator).filter isName = []
  · rw [hnil, if_pos rfl]
    exact or_congr_left (by decide)
  · rw [if_neg hnil]

end OsGuard

end TerminalCommander
