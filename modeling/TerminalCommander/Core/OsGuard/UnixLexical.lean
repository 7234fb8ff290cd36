import TerminalCommander.Core.OsGuard.WindowsLexical

/-!
# Rooted paths and their lexical resolution

What `is_os_critical_path` says of a path `/...` on a host without drives. The trees are matched
against the collapsed path, but the disks below `/dev` and the mounts `/mnt/<letter>` are looked for
in the path as it is spelled, so a spelling can hide them or feign them. `critical_rooted` is the
verdict; a path that neither begins with nor resolves into `dev` or `mnt` is judged as its
resolution is.
-/

namespace TerminalCommander

namespace OsGuard

open LexicalPath ShellDeny Segments List Text

/-! ## The names of a rooted path -/

def NamesProtected (names : List Text) : Prop :=
  names = [] ∨ UNIX_PROTECTED_TREES.any (treeHit ('/' :: Text.join ['/'] names)) = true ∨
    UNIX_PROTECTED_ROOTS.any (rootHit ('/' :: Text.join ['/'] names)) = true ∨
    '/' :: Text.join ['/'] names ∈ UNIX_CRITICAL_FILES

instance (names : List Text) : Decidable (NamesProtected names) :=
  inferInstanceAs (Decidable (_ ∨ _))

def mountSegments : List Text → Option (Char × List Text)
  | first :: [letter] :: tail =>
    if first = "mnt".toList ∧ letter.isAlpha = true then some (letter, tail) else none
  | _ => none

def RootedRefused (host : Host) (segs : List Text) : Prop :=
  match mountSegments segs with
  | some (letter, tail) => DriveProtected host letter (readSegments tail)
  | none => NamesProtected (resolve (segs.map componentOf))

instance (host : Host) (segs : List Text) : Decidable (RootedRefused host segs) := by
  unfold RootedRefused
  split <;> infer_instance

def PathRefused (host : Host) : Text → Prop
  | '/' :: rest => RootedRefused host (rest.splitOn '/')
  | letter :: ':' :: rest => DriveProtected host letter (readSegments (rest.splitOn '/'))
  | _ => False

def UnixRefused (host : Host) (path : Text) : Prop :=
  NamesDisk (path.splitOnP isSeparator) ∨ UnderDev path.trim ∨
    ∀ plain ∈ plainOf host path.trim, PathRefused host plain

/-! ## The mounts -/

variable {rest : Text}

theorem mountOf_not_mnt {front : Text} (hfront : '/' ∉ front) (hmnt : front ≠ "mnt".toList) :
    mountOf ('/' :: (front ++ '/' :: rest)) = none := by
  have hpre : ¬ "/mnt/".toList <+: '/' :: (front ++ '/' :: rest) := by
    rintro ⟨more, hmore⟩
    have heq : "mnt".toList ++ '/' :: more = front ++ '/' :: rest := (List.cons.inj hmore).2
    exact hmnt (append_sep_inj (by decide) hfront heq).symm
  unfold mountOf
  rw [stripPrefix_eq_none hpre]

theorem mountSegments_not_mnt {first : Text} (h : first ≠ "mnt".toList) (segs : List Text) :
    mountSegments (first :: segs) = none := by
  unfold mountSegments
  split
  · rename_i heq
    obtain ⟨rfl, -⟩ := List.cons.inj heq
    exact if_neg fun hmnt => h hmnt.1
  · rfl

theorem mountOf_mnt (rest : Text) : mountOf ('/' :: ("mnt".toList ++ '/' :: rest)) =
    (mountSegments ("mnt".toList :: rest.splitOn '/')).map
      fun m => m.1 :: ':' :: '/' :: join ['/'] m.2 := by
  have hstrip : stripPrefix ('/' :: ("mnt".toList ++ '/' :: rest)) "/mnt/".toList =
      some rest := by
    unfold stripPrefix
    rw [if_pos ⟨rest, rfl⟩]
    rfl
  have hsegs (letter : Char) (segs : List Text) :
      (mountSegments ("mnt".toList :: [letter] :: segs)).map
          (fun m => m.1 :: ':' :: '/' :: join ['/'] m.2) =
        if letter.isAlpha then some (letter :: ':' :: '/' :: join ['/'] segs) else none := by
    unfold mountSegments
    dsimp only
    by_cases halpha : letter.isAlpha
    · rw [if_pos halpha, if_pos ⟨rfl, halpha⟩, Option.map_some]
    · rw [if_neg halpha, if_neg fun h => halpha h.2, Option.map_none]
  unfold mountOf
  rw [hstrip]
  cases rest with
  | nil => rfl
  | cons letter rest =>
    by_cases hletter : letter = '/'
    · -- an empty segment, where the source reads a separator as the letter
      subst hletter
      cases rest with
      | nil => rfl
      | cons d tail =>
        by_cases hd : d = '/'
        · subst hd
          rfl
        · simp [hd, mountSegments, splitOn_cons_eq_if_modifyHead]
    · have hfront : '/' ∉ [letter] := by simpa using Ne.symm hletter
      cases rest with
      | nil =>
        rw [splitOn_eq_singleton hfront, hsegs]
        rfl
      | cons d tail =>
        by_cases hd : d = '/'
        · subst hd
          have hsplit : (letter :: '/' :: tail).splitOn '/' = [letter] :: tail.splitOn '/' :=
            splitOn_append_cons_self_of_not_mem hfront tail
          have hjoin : join ['/'] (tail.splitOn '/') = tail := intercalate_splitOn '/'
          rw [hsplit, hsegs, hjoin]
          rfl
        · obtain ⟨first, segs, hsplit⟩ :=
            exists_cons_of_ne_nil (splitOn_ne_nil '/' tail)
          rw [splitOn_cons_eq_if_modifyHead, splitOn_cons_eq_if_modifyHead,
            if_neg (by simpa using hletter), if_neg (by simpa using hd), hsplit]
          simp [hd, mountSegments]

theorem mountOf_rooted (rest : Text) : mountOf ('/' :: rest) =
    (mountSegments (rest.splitOn '/')).map fun m => m.1 :: ':' :: '/' :: join ['/'] m.2 := by
  rcases cut_at_sep '/' rest with hnot | ⟨front, rest, rfl, hfront⟩
  · have hpre : ¬ "/mnt/".toList <+: '/' :: rest := by
      intro h
      exact hnot ((cons_prefix_cons.mp h).2.subset (by decide))
    have hone : mountSegments [rest] = none := by
      unfold mountSegments
      rfl
    unfold mountOf
    rw [stripPrefix_eq_none hpre, splitOn_eq_singleton hnot, hone]
    rfl
  rw [splitOn_append_cons_self_of_not_mem hfront]
  by_cases hmnt : front = "mnt".toList
  · subst hmnt
    exact mountOf_mnt rest
  · rw [mountOf_not_mnt hfront hmnt, mountSegments_not_mnt hmnt]
    rfl

/-! ## The verdict on a rooted path -/

def PlainNames (names : List Text) : Prop := ∀ n ∈ names, n ≠ [] ∧ '/' ∉ n ∧ '\\' ∉ n

theorem plainNames_resolve {segs : List Text} (h : ∀ seg ∈ segs, '/' ∉ seg ∧ '\\' ∉ seg) :
    PlainNames (resolve (segs.map componentOf)) := by
  intro n hn
  rcases mem_resolveFrom hn with hmem | hmem
  · cases hmem
  · obtain ⟨seg, hseg, heq⟩ := List.mem_map.mp hmem
    obtain rfl := componentOf_eq_name heq
    refine ⟨?_, h seg hseg⟩
    rintro rfl
    cases heq

theorem plainNames_splitOn (hback : '\\' ∉ rest) :
    PlainNames (resolve ((rest.splitOn '/').map componentOf)) := by
  refine plainNames_resolve fun seg hseg => ?_
  obtain ⟨hslash, hsub⟩ := part_of_mem_splitOn hseg
  exact ⟨hslash, fun hmem => hback (hsub hmem)⟩

variable {host : Host}

theorem collapse_rooted (hhost : host.windows = false) (hback : '\\' ∉ rest) :
    collapse host ('/' :: rest) =
      '/' :: join ['/'] (resolve ((rest.splitOn '/').map componentOf)) := by
  have hcomps : components host ('/' :: rest) =
      ⟨[], true, ([] :: rest.splitOn '/').map componentOf⟩ := by
    rw [components_unix hhost, splitOn_cons_eq_if_modifyHead]
    rfl
  have hplain := plainNames_splitOn hback
  have htrim := trimEnd_join (fun n hn => (hplain n hn).1) (p := (· == '/')) fun n hn c hc =>
    beq_eq_false_iff_ne.mpr fun heq => (hplain n hn).2.1 (heq ▸ mem_of_getLast? hc)
  rw [collapse_eq hcomps fun seg _ => by rw [hhost]; rfl,
    show resolve (([] :: rest.splitOn '/').map componentOf) =
      resolve ((rest.splitOn '/').map componentOf) from rfl,
    slashed_join fun n hn => (hplain n hn).2.2]
  dsimp only
  rw [if_pos rfl, nil_append, singleton_append]
  generalize resolve ((rest.splitOn '/').map componentOf) = names at hplain htrim ⊢
  by_cases hnil : join ['/'] names = []
  · rw [hnil]
    rfl
  · have hrooted : trimEndMatches (· == '/') ('/' :: join ['/'] names) =
        '/' :: join ['/'] names := by
      refine rdropWhile_eq_self_iff.mpr fun hne => ?_
      rw [getLast_cons hnil]
      exact rdropWhile_eq_self_iff.mp htrim hnil
    rw [hrooted]
    rfl

theorem unixProtected_rooted (hhost : host.windows = false) (hback : '\\' ∉ rest) :
    unixProtected host ('/' :: rest) ↔
      NamesProtected (resolve ((rest.splitOn '/').map componentOf)) := by
  have hplain := plainNames_splitOn hback
  unfold unixProtected NamesProtected
  rw [collapse_rooted hhost hback]
  generalize resolve ((rest.splitOn '/').map componentOf) = names at hplain ⊢
  dsimp only
  rw [Bool.or_eq_true, Bool.or_eq_true, Bool.or_eq_true, beq_iff_eq, contains_iff_mem,
    or_assoc, or_assoc]
  refine or_congr_left ?_
  rw [cons_eq_cons, and_iff_right rfl, join_eq_nil_iff fun n hn => (hplain n hn).1]

variable {letter : Char}

theorem mountSegments_eq_some {segs tail : List Text}
    (h : mountSegments segs = some (letter, tail)) :
    segs = "mnt".toList :: [letter] :: tail ∧ letter.isAlpha := by
  unfold mountSegments at h
  split at h
  · split_ifs at h with hmnt
    cases h
    exact ⟨by rw [hmnt.1], hmnt.2⟩
  · cases h

theorem not_looksWindows (h : rest.head? ≠ some '/') : looksWindows ('/' :: rest) = false := by
  have hunc : "//".toList.isPrefixOf ('/' :: rest) = false := by
    refine eq_false_of_ne_true fun hpre => h ?_
    obtain ⟨more, hmore⟩ := (cons_prefix_cons.mp (List.isPrefixOf_iff_prefix.mp hpre)).2
    rw [← hmore]
    rfl
  unfold looksWindows
  rw [hunc, Bool.or_false]
  unfold hasDrive
  split
  · rename_i heq
    cases heq
    rfl
  · rfl

theorem pathVerdict_rooted (hhost : host.windows = false)
    (hrest : rest.head? ≠ some '/') (hback : '\\' ∉ rest) :
    pathVerdict host ('/' :: rest) ↔ RootedRefused host (rest.splitOn '/') := by
  unfold pathVerdict RootedRefused
  rw [mountOf_rooted]
  cases hmount : mountSegments (rest.splitOn '/') with
  | none =>
    rw [Option.map_none]
    dsimp only
    rw [not_looksWindows hrest, if_neg Bool.false_ne_true]
    exact unixProtected_rooted hhost hback
  | some m =>
    obtain ⟨letter, tail⟩ := m
    obtain ⟨hsegs, hletter⟩ := mountSegments_eq_some hmount
    have htail : ∀ seg ∈ tail, '/' ∉ seg ∧ '\\' ∉ seg := by
      intro seg hseg
      have hmem : seg ∈ rest.splitOn '/' := by
        rw [hsegs]
        exact mem_cons_of_mem _ (mem_cons_of_mem _ hseg)
      obtain ⟨hslash, hsub⟩ := part_of_mem_splitOn hmem
      exact ⟨hslash, fun h => hback (hsub h)⟩
    have hjoin : '\\' ∉ join ['/'] tail := by
      intro hmem
      rcases mem_join hmem with hslash | ⟨seg, hseg, hmem⟩
      · cases hslash
      · exact (htail seg hseg).2 hmem
    rw [Option.map_some]
    dsimp only
    rw [windowsVerdict_drive host hletter hjoin]
    by_cases hnil : tail = []
    · rw [hnil]
      rfl
    · rw [show (join ['/'] tail).splitOn '/' = tail from
        splitOn_intercalate '/' (fun seg hseg => (htail seg hseg).1) hnil]

theorem pathVerdict_plainDrive (host : Host) (hletter : letter.isAlpha) (hback : '\\' ∉ rest) :
    pathVerdict host (letter :: ':' :: rest) ↔
      DriveProtected host letter (readSegments (rest.splitOn '/')) := by
  rw [pathVerdict_drive host hletter]
  by_cases hslash : rest.head? = some '/'
  · obtain ⟨more, rfl⟩ : ∃ more, rest = '/' :: more := by
      cases rest with
      | nil => cases hslash
      | cons c more => exact ⟨more, by rw [Option.some.inj hslash]⟩
    rw [windowsVerdict_drive host hletter fun hmem => hback (mem_cons_of_mem _ hmem),
      splitOn_cons_eq_if_modifyHead]
    rfl
  · have hlower : (toAsciiLowercase rest).head? ≠ some '/' := by
      intro h
      unfold toAsciiLowercase at h
      rw [head?_map, Option.map_eq_some_iff] at h
      obtain ⟨c, hc, hlow⟩ := h
      exact hslash (by rw [hc, toLower_eq_slash.mp hlow])
    have hsize : letter.toLower.utf8Size = 1 := utf8Size_of_isAlpha (toLower_isAlpha hletter)
    have hrooted : driveRooted (toAsciiLowercase (letter :: ':' :: rest)) =
        driveRooted (toAsciiLowercase (letter :: ':' :: '/' :: rest)) :=
      (if_pos ⟨hsize, hlower⟩).trans (if_neg fun h => h.2 rfl).symm
    rw [← windowsVerdict_drive host hletter hback]
    unfold windowsVerdict
    rw [hrooted]

/-! ## The verdict -/

theorem isUnc_unix (hhost : host.windows = false) (path : Text) : isUnc host path = false := by
  unfold isUnc
  rw [hhost, Bool.false_and]

variable {t : Text}

theorem subset_of_stripPrefix {p : Text} (h : t.stripPrefix p = some rest) : rest ⊆ t := by
  unfold stripPrefix at h
  split_ifs at h
  obtain rfl := Option.some.inj h
  exact drop_subset p.length t

theorem cons_of_hasDrive (h : hasDrive t) :
    ∃ letter rest, t = letter :: ':' :: rest ∧ letter.isAlpha := by
  unfold hasDrive at h
  split at h
  · exact ⟨_, _, rfl, h⟩
  · cases h

theorem head?_squeeze_true (rest : Text) : (squeeze '/' true rest).head? ≠ some '/' := by
  induction rest with
  | nil => exact fun h => nomatch h
  | cons c rest ih =>
    unfold squeeze
    by_cases hc : c = '/'
    · rw [if_pos hc, if_pos rfl]
      exact ih
    · rw [if_neg hc, head?_cons]
      exact fun h => hc (Option.some.inj h)

theorem plainOf_shape (hhost : host.windows = false) {plain : Text}
    (ht : ∃ rest, t.trim.replaceChar '\\' '/' = '/' :: rest) (h : plainOf host t = some plain) :
    (∃ rest, plain = '/' :: rest ∧ rest.head? ≠ some '/' ∧ '\\' ∉ rest) ∨
      ∃ letter rest, plain = letter :: ':' :: rest ∧ letter.isAlpha ∧ '\\' ∉ rest := by
  have hrooted (rest : Text) (hback : '\\' ∉ rest) :
      ∃ more, collapseSeparators host ('/' :: rest) = '/' :: more ∧ more.head? ≠ some '/' ∧
        '\\' ∉ more := by
    refine ⟨squeeze '/' true rest, ?_, head?_squeeze_true rest, ?_⟩
    · rw [collapseSeparators_eq (isUnc_unix hhost _), squeeze, if_pos rfl, if_neg Bool.false_ne_true]
    · exact fun hmem => hback ((squeeze_sublist rest true).subset hmem)
  obtain ⟨rest, hslashed⟩ := ht
  have hback := not_mem_slashed t.trim
  unfold plainOf at h
  rw [hslashed] at h hback
  dsimp only at h
  split at h
  · obtain ⟨more, hmore, hhead, hnot⟩ := hrooted rest fun hmem => hback (mem_cons_of_mem _ hmem)
    rw [hmore] at h
    exact Or.inl ⟨more, (Option.some.inj h).symm, hhead, hnot⟩
  · rename_i after hafter
    have hnot : '\\' ∉ after := by
      refine fun hmem => hback ?_
      rcases Option.or_eq_some_iff.mp hafter with hstrip | ⟨-, hstrip⟩
      · exact subset_of_stripPrefix hstrip hmem
      · exact subset_of_stripPrefix hstrip hmem
    split_ifs at h with hdrive hunc
    · obtain ⟨letter, more, rfl, hletter⟩ := cons_of_hasDrive hdrive
      have hslash : letter ≠ '/' := isAlpha_ne hletter rfl
      rw [collapseSeparators_eq (isUnc_unix hhost _), squeeze, if_neg hslash, squeeze,
        if_neg (by decide)] at h
      refine Or.inr ⟨letter, _, (Option.some.inj h).symm, hletter, fun hmem => hnot ?_⟩
      have hmore := (squeeze_sublist more false).subset hmem
      exact mem_cons_of_mem _ (mem_cons_of_mem _ hmore)
    · have hshare : '\\' ∉ '/' :: after.drop 4 := by
        intro hmem
        rcases mem_cons.mp hmem with heq | hmem
        · cases heq
        · exact hnot (mem_of_mem_drop hmem)
      obtain ⟨more, hmore, hhead, hmem⟩ := hrooted _ hshare
      rw [show "//".toList ++ after.drop 4 = '/' :: '/' :: after.drop 4 from rfl, hmore] at h
      exact Or.inl ⟨more, (Option.some.inj h).symm, hhead, hmem⟩

theorem pathRefused_drive (host : Host) (hletter : letter.isAlpha)
    (rest : Text) : PathRefused host (letter :: ':' :: rest) =
      DriveProtected host letter (readSegments (rest.splitOn '/')) := by
  have hslash : letter ≠ '/' := isAlpha_ne hletter rfl
  unfold PathRefused
  split
  · rename_i heq
    exact absurd (List.cons.inj heq).1 hslash
  · rename_i heq
    cases heq
    rfl
  · rename_i hdrive
    exact absurd rfl (hdrive letter rest)

theorem trim_rooted (rest : Text) : trim ('/' :: rest) = '/' :: rest.trimEnd :=
  rdropWhile_append_cons (p := whiteSpace) (x := '/') rfl [] rest

theorem critical_rooted (hhost : host.windows = false) (rest : Text) :
    critical host ('/' :: rest) ↔ UnixRefused host ('/' :: rest) := by
  have hslashed : ∃ more, (trim (trim ('/' :: rest))).replaceChar '\\' '/' = '/' :: more := by
    rw [trim_rooted, trim_rooted]
    exact ⟨_, rfl⟩
  have hdisk : NamesDisk ((trim ('/' :: rest)).splitOnP isSeparator) ↔
      NamesDisk (('/' :: rest).splitOnP isSeparator) := namesDisk_trimEnd ('/' :: rest)
  have hempty : ¬ (trim ('/' :: rest)).isEmpty := by
    rw [trim_rooted]
    exact Bool.false_ne_true
  unfold critical UnixRefused
  dsimp only
  rw [if_neg hempty, Bool.or_eq_true, isDiskDevice_iff, hdisk, or_assoc]
  refine or_congr_right (or_congr_right ?_)
  cases hplain : plainOf host (trim ('/' :: rest)) with
  | none => simp
  | some plain =>
    simp only [Option.mem_some, forall_eq']
    rcases plainOf_shape hhost hslashed hplain with ⟨more, rfl, hhead, hback⟩ |
      ⟨letter, more, rfl, hletter, hback⟩
    · exact pathVerdict_rooted hhost hhead hback
    · rw [pathRefused_drive host hletter]
      exact pathVerdict_plainDrive host hletter hback

/-! ## A path and its resolution -/

def rootedResolved (rest : Text) : Text :=
  Text.join ['/'] (resolve ((rest.splitOn '/').map componentOf))

structure Ordinary (rest : Text) : Prop where
  backslash : '\\' ∉ rest
  blank : rest.trimEnd = rest
  disk : ¬ NamesDisk (rest.splitOn '/')
  first : ∀ seg ∈ (rest.splitOn '/').head?,
    Text.toAsciiLowercase seg ≠ "dev".toList ∧ seg ≠ "mnt".toList

theorem head?_splitOn_squeeze (h : rest.head? ≠ some '/') :
    ((squeeze '/' true rest).splitOn '/').head? = (rest.splitOn '/').head? := by
  by_cases hnil : rest = []
  · rw [hnil]
    rfl
  rcases cut_at_sep '/' rest with hnot | ⟨front, more, rfl, hfront⟩
  · have hsqueeze := squeeze_of_not_mem hnot true [] hnil
    rw [append_nil, show squeeze '/' false [] = [] from rfl, append_nil] at hsqueeze
    rw [hsqueeze]
  · have hne : front ≠ [] := by
      rintro rfl
      exact h rfl
    rw [squeeze_of_not_mem hfront true _ hne, squeeze, if_pos rfl, if_neg Bool.false_ne_true,
      splitOn_append_cons_self_of_not_mem hfront,
      splitOn_append_cons_self_of_not_mem hfront]
    rfl

theorem Ordinary.not_underDev (h : Ordinary rest) : ¬ UnderDev ('/' :: rest) := by
  rintro ⟨dev, hdev, -⟩
  have hback : '\\' ∉ '/' :: rest := by simpa using h.backslash
  rw [slashed_eq_self hback] at hdev
  unfold stripPrefix at hdev
  split_ifs at hdev with hpre
  obtain ⟨more, hmore⟩ := hpre
  have hlower : toAsciiLowercase rest = "dev".toList ++ '/' :: more :=
    (List.cons.inj hmore).2.symm
  -- the first segment of the lowered path is that of the path, lowered
  have hsplit := splitOn_toAsciiLowercase rest
  rw [hlower, splitOn_append_cons_self_of_not_mem (by decide)] at hsplit
  cases hsegs : rest.splitOn '/' with
  | nil => exact splitOn_ne_nil '/' rest hsegs
  | cons seg segs =>
    rw [hsegs, map_cons] at hsplit
    exact (h.first seg (by rw [hsegs]; rfl)).1 (List.cons.inj hsplit).1.symm

theorem Ordinary.trim_eq (h : Ordinary rest) : trim ('/' :: rest) = '/' :: rest := by
  rw [trim_rooted, h.blank]

theorem Ordinary.plainOf_eq (hhost : host.windows = false)
    (h : Ordinary rest) (hrest : rest.head? ≠ some '/') :
    plainOf host ('/' :: rest) = some ('/' :: squeeze '/' true rest) := by
  have hback : '\\' ∉ '/' :: rest := by simpa using h.backslash
  have hstrip (p : Text) : stripPrefix ('/' :: rest) ('/' :: '/' :: p) = none := by
    refine stripPrefix_eq_none fun hpre => hrest ?_
    obtain ⟨more, hmore⟩ := (cons_prefix_cons.mp hpre).2
    rw [← hmore]
    rfl
  unfold plainOf
  rw [h.trim_eq, slashed_eq_self hback]
  dsimp only
  rw [show "//?/".toList = '/' :: '/' :: "?/".toList from rfl, hstrip,
    show "//./".toList = '/' :: '/' :: "./".toList from rfl, hstrip]
  dsimp only [Option.or]
  rw [collapseSeparators_eq (isUnc_unix hhost _), squeeze, if_pos rfl, if_neg Bool.false_ne_true]

theorem Ordinary.refused_iff (hhost : host.windows = false)
    (h : Ordinary rest) (hrest : rest.head? ≠ some '/') : UnixRefused host ('/' :: rest) ↔
      NamesProtected (resolve ((rest.splitOn '/').map componentOf)) := by
  have hsplit : ('/' :: rest).splitOnP isSeparator = [] :: rest.splitOn '/' := by
    rw [splitOnP_cons_eq_if_modifyHead, if_pos (show isSeparator '/' from rfl),
      ← splitOn_slashed, slashed_eq_self h.backslash]
  have hdisk : ¬ NamesDisk (('/' :: rest).splitOnP isSeparator) := by
    rw [hsplit]
    rintro ⟨comp, hcomp, hin⟩
    rcases mem_cons.mp hcomp with rfl | hcomp
    · exact absurd hin (by decide)
    · exact h.disk ⟨comp, hcomp, hin⟩
  have hmount : mountSegments ((squeeze '/' true rest).splitOn '/') = none := by
    have hhead := head?_splitOn_squeeze hrest
    cases hsegs : (squeeze '/' true rest).splitOn '/' with
    | nil => rfl
    | cons seg segs =>
      rw [hsegs, head?_cons] at hhead
      exact mountSegments_not_mnt (h.first seg hhead.symm).2 segs
  have hres : resolve (((squeeze '/' true rest).splitOn '/').map componentOf) =
      resolve ((rest.splitOn '/').map componentOf) := by
    unfold resolve
    rw [← resolveFrom_filter, ← resolveFrom_filter (rest.splitOn '/')]
    exact congrArg (fun segs => resolveFrom [] (segs.map componentOf)) (words_squeeze rest true)
  unfold UnixRefused
  rw [or_iff_right hdisk, h.trim_eq, or_iff_right h.not_underDev, h.plainOf_eq hhost hrest]
  simp only [Option.mem_some, forall_eq']
  show RootedRefused host _ ↔ _
  unfold RootedRefused
  rw [hmount, hres]

theorem resolve_rootedResolved (hback : '\\' ∉ rest) :
    resolve (((rootedResolved rest).splitOn '/').map componentOf) =
      resolve ((rest.splitOn '/').map componentOf) := by
  have hplain := plainNames_splitOn hback
  have hname : ∀ n ∈ resolve ((rest.splitOn '/').map componentOf), componentOf n = .name n := by
    intro n hn
    rcases mem_resolveFrom hn with hmem | hmem
    · cases hmem
    · obtain ⟨seg, -, heq⟩ := List.mem_map.mp hmem
      obtain rfl := componentOf_eq_name heq
      exact heq
  unfold rootedResolved
  generalize resolve ((rest.splitOn '/').map componentOf) = names at hplain hname ⊢
  by_cases hnil : names = []
  · rw [hnil]
    rfl
  · rw [show (join ['/'] names).splitOn '/' = names from
      splitOn_intercalate '/' (fun n hn => (hplain n hn).2.1) hnil,
      map_congr_left hname]
    exact resolveFrom_map_name names []

theorem head?_rootedResolved (hback : '\\' ∉ rest) : (rootedResolved rest).head? ≠ some '/' := by
  have hplain := plainNames_splitOn hback
  unfold rootedResolved
  generalize resolve ((rest.splitOn '/').map componentOf) = names at hplain ⊢
  cases names with
  | nil => exact fun h => nomatch h
  | cons n names =>
    obtain ⟨hne, hslash, -⟩ := hplain n mem_cons_self
    obtain ⟨more, hmore⟩ := Text.prefix_join ['/'] n names
    obtain ⟨c, n, rfl⟩ := exists_cons_of_ne_nil hne
    rw [← hmore]
    intro h
    exact hslash (by rw [← Option.some.inj h]; exact mem_cons_self)

theorem Ordinary.refused_resolved (hhost : host.windows = false) (hp : Ordinary rest)
    (hq : Ordinary (rootedResolved rest)) (hrest : rest.head? ≠ some '/') :
    UnixRefused host ('/' :: rest) ↔ UnixRefused host ('/' :: rootedResolved rest) := by
  rw [hp.refused_iff hhost hrest, hq.refused_iff hhost (head?_rootedResolved hp.backslash),
    resolve_rootedResolved hp.backslash]

end OsGuard

end TerminalCommander
