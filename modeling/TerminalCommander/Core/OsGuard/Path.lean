import TerminalCommander.Core.ShellDeny.Names
import TerminalCommander.Lib.LexicalPath

/-!
# Protected paths

The path classifiers of `core/src/os_guard.rs`: whether an operand of a deletion names OS-critical
infrastructure. `std::path` differs between hosts, so the host is a parameter: a Windows host knows
drive and UNC prefixes. As in `ShellDeny`, the functions that slice a string are checked, and beside
each stands the plain function it computes.
-/

namespace TerminalCommander

namespace OsGuard

open LexicalPath ShellDeny List Text

structure Host where
  windows : Bool
  systemDrive : Option Text

def UNIX_PROTECTED_TREES : List Text :=
  ["/boot", "/bin", "/sbin", "/lib", "/lib32", "/lib64", "/usr/bin", "/usr/sbin", "/usr/lib",
    "/usr/lib32", "/usr/lib64", "/usr/libexec", "/usr/share", "/sys", "/proc", "/etc/systemd",
    "/etc/pam.d", "/etc/ssh", "/etc/sudoers.d", "/etc/ld.so.conf.d", "/var/lib/dpkg",
    "/var/lib/rpm", "/var/lib/pacman", "/var/lib/systemd", "/System", "/private/etc"].map
    String.toList

def UNIX_PROTECTED_ROOTS : List Text :=
  ["/usr", "/usr/local", "/etc", "/var", "/var/lib", "/dev", "/opt", "/home"].map String.toList

def UNIX_CRITICAL_FILES : List Text :=
  ["/etc/passwd", "/etc/shadow", "/etc/group", "/etc/gshadow", "/etc/sudoers", "/etc/fstab",
    "/etc/hosts", "/etc/hostname", "/etc/ld.so.conf", "/etc/ld.so.cache"].map String.toList

def WINDOWS_PROTECTED_SUBTREES : List Text :=
  ["/windows", "/boot", "/efi", "/recovery", "/system volume information", "/bootmgr",
    "/msdos.sys", "/io.sys", "/ntldr", "/pagefile.sys", "/hiberfil.sys", "/swapfile.sys"].map
    String.toList

def WINDOWS_PROTECTED_ROOTS : List Text :=
  ["/program files", "/program files (x86)", "/users"].map String.toList

def DISK_NAMES : List Text :=
  ["sd", "nvme", "hd", "disk", "mmcblk", "vd", "xvd", "dm-", "mapper/", "md", "nbd",
    "disk/by-"].map String.toList

def isDiskDevice (raw : Text) : Bool :=
  let slashed := raw.replaceChar '\\' '/'
  let lower := slashed.toAsciiLowercase
  (Text.find "physicaldrive".toList lower).isSome ||
    match lower.stripPrefix "/dev/".toList with
    | none => false
    | some dev => DISK_NAMES.any fun p => p.isPrefixOf dev

def isUnresolvable (word : Text) : Bool :=
  word.head?.any fun c => c == '$' || c == '~' || c == '%'

def hasDrive : Text → Bool
  | c :: ':' :: _ => c.isAlpha
  | _ => false

def isGlob (c : Char) : Bool := c == '*' || c == '?' || c == '['

def byteFindAny (p : Char → Bool) (t : Text) : Option Nat :=
  if t.any p then some (Text.len (t.takeWhile fun c => !p c)) else none

def byteRfindAny (p : Char → Bool) (t : Text) : Option Nat :=
  (t.rdropWhile fun c => !p c).getLast?.map fun c =>
    Text.len (t.rdropWhile fun c => !p c) - c.utf8Size

def globFixedPrefix (operand : Text) : Checked Text :=
  match byteFindAny isGlob operand with
  | none => .ok operand
  | some idx => do
    let head ← operand.sliceTo idx
    match byteRfindAny isSeparator head with
    | none => return []
    | some sep => head.sliceTo (sep + 1)

def isUnc (host : Host) (path : Text) : Bool :=
  host.windows &&
    match path.stripPrefix "//".toList with
    | none => false
    | some rest =>
      match rest.splitOn '/' with
      | server :: share :: _ => !server.isEmpty && !share.isEmpty
      | _ => false

def collapseSeparators (host : Host) (path : Text) : Text :=
  let unc := isUnc host path
  path.foldl
    (fun out ch =>
      if ch = '/' ∧ out.getLast? = some '/' ∧ (if unc then 1 else 0) < Text.len out then out
      else out ++ [ch])
    (if unc then ['/'] else [])

def plainPath (host : Host) (raw : Text) : Checked (Option Text) :=
  let slashed := raw.trim.replaceChar '\\' '/'
  match (slashed.stripPrefix "//?/".toList).or (slashed.stripPrefix "//./".toList) with
  | none => .ok (some (collapseSeparators host slashed))
  | some rest =>
    if hasDrive rest then .ok (some (collapseSeparators host rest))
    else if Text.eqIgnoreAsciiCase (rest.take 4) "unc/".toList then do
      let share ← rest.sliceFrom 4
      return some (collapseSeparators host ("//".toList ++ share))
    else .ok none

def systemDrive (host : Host) : Text :=
  match host.systemDrive with
  | some [letter, ':'] =>
    if letter.isAlpha then Text.toAsciiLowercase [letter, ':'] else "c:".toList
  | _ => "c:".toList

def wslMountToWindows (path : Text) : Checked (Option Text) :=
  match path.stripPrefix "/mnt/".toList with
  | none => .ok none
  | some rest =>
    let drive := rest.takeWhile (· != '/')
    if Text.len drive ≠ 1 then .ok none
    else do
      let letter ← Checked.unwrap drive.head?
      if !letter.isAlpha then return none
      let tail := ((rest.splitOnce '/').map Prod.snd).getD []
      return some (drive ++ ":/".toList ++ tail)

def looksWindows (path : Text) : Bool := hasDrive path || "//".toList.isPrefixOf path

/-! ## Lexical collapse -/

def componentOf (seg : Text) : Component Text :=
  if seg.isEmpty || seg == ".".toList then .here
  else if seg == "..".toList then .parent
  else .name seg

structure Components where
  pre : Text
  hadRoot : Bool
  body : List (Component Text)

def uncPrefix (path : Text) : Option (Text × Text) :=
  match path with
  | '/' :: '/' :: rest =>
    let server := rest.takeWhile (· != '/')
    let share := (rest.drop (server.length + 1)).takeWhile (· != '/')
    if server.isEmpty || share.isEmpty then none
    else some (path.splitAt (2 + server.length + 1 + share.length))
  | _ => none

def components (host : Host) (path : Text) : Components :=
  let bare (pre rest : Text) (hadRoot : Bool) : Components :=
    ⟨pre, hadRoot || rest.head? == some '/', (rest.splitOn '/').map componentOf⟩
  if host.windows then
    match uncPrefix path with
    | some (pre, rest) => bare pre rest true
    | none => if hasDrive path then bare (path.take 2) (path.drop 2) false else bare [] path false
  else bare [] path false

structure PathBuf where
  drive : Text
  names : List Text

namespace PathBuf

def push (host : Host) (out : PathBuf) (seg : Text) : PathBuf :=
  if host.windows && hasDrive seg then
    ⟨seg.take 2, if (seg.drop 2).isEmpty then [] else [seg.drop 2]⟩
  else ⟨out.drive, out.names ++ [seg]⟩

def pop (out : PathBuf) : PathBuf := ⟨out.drive, out.names.dropLast⟩

def text (out : PathBuf) : Text := out.drive ++ Text.join ['/'] out.names

def step (host : Host) (out : PathBuf) : Component Text → PathBuf
  | .here => out
  | .parent => out.pop
  | .name seg => out.push host seg

end PathBuf

def collapse (host : Host) (path : Text) : Text :=
  let comps := components host path
  let out := comps.body.foldl (PathBuf.step host) ⟨[], []⟩
  let tail := out.text.replaceChar '\\' '/'
  let joined := comps.pre ++ (if comps.hadRoot then ['/'] else []) ++ tail
  let trimmed := Text.trimEndMatches (· == '/') joined
  if trimmed.isEmpty then joined else trimmed

/-! ## The classifiers -/

def treeHit (path root : Text) : Bool :=
  path == root || (root ++ ['/']).isPrefixOf path || (path ++ ['/']).isPrefixOf root

def rootHit (path root : Text) : Bool := path == root || (path ++ ['/']).isPrefixOf root

def unixProtected (host : Host) (path : Text) : Bool :=
  let norm := collapse host path
  norm == ['/'] || UNIX_PROTECTED_TREES.any (treeHit norm) ||
    UNIX_PROTECTED_ROOTS.any (rootHit norm) || UNIX_CRITICAL_FILES.contains norm

def trimSegments (path : Text) : Text :=
  Text.join ['/'] ((path.splitOn '/').map fun seg => Text.trimEndMatches isDotOrSpace seg)

def windowsNormProtected (host : Host) (norm : Text) : Bool :=
  if norm.len == 2 && norm.byteIs 1 ':' then true
  else if "//".toList.isPrefixOf norm then
    (((norm.dropWhile (· == '/')).splitOn '/').filter fun s => !s.isEmpty).length ≤ 2
  else
    match norm.stripPrefix (systemDrive host) with
    | none => false
    | some afterDrive =>
      let afterDrive := Text.trimEndMatches (· == '.') afterDrive
      WINDOWS_PROTECTED_SUBTREES.any (treeHit afterDrive) ||
        WINDOWS_PROTECTED_ROOTS.any (rootHit afterDrive)

def rootDrive (lower : Text) : Checked Text :=
  if 2 ≤ lower.len && lower.byteIs 1 ':' && !lower.byteIs 2 '/' then do
    let drive ← lower.sliceTo 2
    let rest ← lower.sliceFrom 2
    return drive ++ '/' :: rest
  else .ok lower

def windowsProtected (host : Host) (path : Text) : Checked Bool := do
  let lower ← rootDrive path.toAsciiLowercase
  return windowsNormProtected host (collapse host (trimSegments lower))

def isOsCriticalPath (host : Host) (raw : Text) : Checked Bool :=
  let trimmed := raw.trim
  if trimmed.isEmpty then .ok false
  else if isDiskDevice trimmed then .ok true
  else do
    match ← plainPath host trimmed with
    | none => return true
    | some path =>
      match ← wslMountToWindows path with
      | some mapped => windowsProtected host mapped
      | none =>
        if looksWindows path then windowsProtected host path
        else return unixProtected host path

def operandIsProtected (host : Host) (operand : Text) (cwd : Option Text) : Checked Bool := do
  match ← plainPath host operand with
  | none => return true
  | some path =>
    let fixed ← globFixedPrefix path
    if fixed.isEmpty then
      if path.isEmpty || isUnresolvable path then return false
      match cwd with
      | none => return false
      | some cwd => isOsCriticalPath host cwd
    else if isUnresolvable fixed then return false
    else if hasDrive fixed then isOsCriticalPath host fixed
    else if fixed.head? = some '/' then
      if ← isOsCriticalPath host fixed then return true
      if "//".toList.isPrefixOf fixed then return false
      match (cwd.map Text.trimStart).filter hasDrive with
      | none => return false
      | some cwd => isOsCriticalPath host ((← cwd.sliceTo 2) ++ fixed)
    else
      match cwd with
      | none => isOsCriticalPath host fixed
      | some cwd =>
        isOsCriticalPath host (Text.trimEndMatches (· == '/') cwd ++ '/' :: fixed)

/-! ## The plain functions -/

def fixedPart (operand : Text) : Text :=
  if operand.any isGlob then (operand.takeWhile fun c => !isGlob c).rdropWhile fun c => !isSeparator c
  else operand

def plainOf (host : Host) (raw : Text) : Option Text :=
  let slashed := raw.trim.replaceChar '\\' '/'
  match (slashed.stripPrefix "//?/".toList).or (slashed.stripPrefix "//./".toList) with
  | none => some (collapseSeparators host slashed)
  | some rest =>
    if hasDrive rest then some (collapseSeparators host rest)
    else if Text.eqIgnoreAsciiCase (rest.take 4) "unc/".toList then
      some (collapseSeparators host ("//".toList ++ rest.drop 4))
    else none

def mountOf (path : Text) : Option Text :=
  match path.stripPrefix "/mnt/".toList with
  | some [letter] => if letter.isAlpha then some [letter, ':', '/'] else none
  | some (letter :: '/' :: tail) => if letter.isAlpha then some (letter :: ':' :: '/' :: tail) else none
  | _ => none

def driveRooted (lower : Text) : Text :=
  match lower with
  | c :: ':' :: rest =>
    if c.utf8Size = 1 ∧ rest.head? ≠ some '/' then c :: ':' :: '/' :: rest else lower
  | _ => lower

def windowsVerdict (host : Host) (path : Text) : Bool :=
  windowsNormProtected host (collapse host (trimSegments (driveRooted path.toAsciiLowercase)))

def pathVerdict (host : Host) (path : Text) : Bool :=
  match mountOf path with
  | some mapped => windowsVerdict host mapped
  | none => if looksWindows path then windowsVerdict host path else unixProtected host path

def critical (host : Host) (raw : Text) : Bool :=
  let trimmed := raw.trim
  if trimmed.isEmpty then false
  else isDiskDevice trimmed ||
    match plainOf host trimmed with
    | none => true
    | some path => pathVerdict host path

def protects (host : Host) (operand : Text) (cwd : Option Text) : Bool :=
  match plainOf host operand with
  | none => true
  | some path =>
    let fixed := fixedPart path
    if fixed.isEmpty then
      !path.isEmpty && !isUnresolvable path && cwd.any (critical host)
    else if isUnresolvable fixed then false
    else if hasDrive fixed then critical host fixed
    else if fixed.head? = some '/' then
      critical host fixed || (!"//".toList.isPrefixOf fixed &&
        ((cwd.map Text.trimStart).filter hasDrive).any fun cwd =>
          critical host (cwd.take 2 ++ fixed))
    else
      match cwd with
      | none => critical host fixed
      | some cwd => critical host (Text.trimEndMatches (· == '/') cwd ++ '/' :: fixed)

/-! ## The specifications -/

variable {c : Char}

theorem utf8Size_of_isSeparator (h : isSeparator c) : c.utf8Size = 1 := by
  unfold isSeparator at h
  rw [Bool.or_eq_true, beq_iff_eq, beq_iff_eq] at h
  rcases h with rfl | rfl <;> rfl

theorem globFixedPrefix_eq (operand : Text) : globFixedPrefix operand = .ok
    (fixedPart operand) := by
  unfold globFixedPrefix fixedPart byteFindAny
  by_cases hany : operand.any isGlob
  · rw [if_pos hany, if_pos hany]
    have hslice := sliceTo_append (operand.takeWhile fun c => !isGlob c)
      (operand.dropWhile fun c => !isGlob c)
    rw [takeWhile_append_dropWhile] at hslice
    generalize (operand.takeWhile fun c => !isGlob c) = head at hslice ⊢
    simp only [hslice, bind, Except.bind]
    unfold byteRfindAny
    rcases eq_nil_or_concat' (head.rdropWhile fun c => !isSeparator c) with hnil | ⟨u, c, hu⟩
    · rw [hnil]
      rfl
    · have hc : isSeparator c := by
        have hlast := rdropWhile_last_not (fun c => !isSeparator c) head (by rw [hu]; simp)
        simpa [hu] using hlast
      have hhead := sliceTo_append (head.rdropWhile fun c => !isSeparator c)
        (head.rtakeWhile fun c => !isSeparator c)
      rw [rdropWhile_append_rtakeWhile, hu, len_append, len, len_nil,
        utf8Size_of_isSeparator hc] at hhead
      rw [hu, getLast?_concat, Option.map_some, len_append, len, len_nil,
        utf8Size_of_isSeparator hc]
      dsimp only
      rwa [show len u + (1 + 0) - 1 + 1 = len u + (1 + 0) by omega]
  · rw [if_neg hany, if_neg hany]

theorem plainPath_eq (host : Host) (raw : Text) : plainPath host raw = .ok (plainOf host raw) := by
  unfold plainPath plainOf
  dsimp only
  cases hrest : ((raw.trim.replaceChar '\\' '/').stripPrefix "//?/".toList).or
      ((raw.trim.replaceChar '\\' '/').stripPrefix "//./".toList) with
  | none => rfl
  | some rest =>
    dsimp only
    by_cases hdrive : hasDrive rest
    · rw [if_pos hdrive, if_pos hdrive]
    · rw [if_neg hdrive, if_neg hdrive]
      by_cases hunc : eqIgnoreAsciiCase (rest.take 4) "unc/".toList
      · rw [if_pos hunc, if_pos hunc]
        -- the mark is ASCII, so its four characters are four bytes
        have hlen : len (rest.take 4) = 4 := len_of_eqIgnoreAsciiCase hunc
        have hslice := sliceFrom_append (rest.take 4) (rest.drop 4)
        rw [take_append_drop, hlen] at hslice
        rw [hslice]
        rfl
      · rw [if_neg hunc, if_neg hunc]

theorem utf8Size_of_isAlpha (h : c.isAlpha) : c.utf8Size = 1 := by
  rw [Char.utf8Size_eq_one_iff, UInt32.le_iff_toNat_le]
  rw [isAlpha_iff, Char.toNat] at h
  have hmax : (127 : UInt32).toNat = 127 := rfl
  omega

theorem mountLetter_eq (letter : Char) (tail : Text) :
    (if len [letter] ≠ 1 then (.ok none : Checked (Option Text))
    else do
      let c ← Checked.unwrap [letter].head?
      if !c.isAlpha then return none
      return some ([letter] ++ ":/".toList ++ tail)) =
      .ok (if letter.isAlpha then some (letter :: ':' :: '/' :: tail) else none) := by
  have hlen : len [letter] = letter.utf8Size := by rw [len, len_nil, Nat.add_zero]
  by_cases halpha : letter.isAlpha
  · rw [hlen, utf8Size_of_isAlpha halpha, if_neg (by simp), if_pos halpha, head?_cons,
      Checked.unwrap]
    simp only [bind, Except.bind, halpha]
    rfl
  · rw [if_neg halpha]
    split_ifs
    · rfl
    · simp only [head?_cons, Checked.unwrap, bind, Except.bind, eq_false_of_ne_true halpha]
      rfl

theorem wslMountToWindows_eq (path : Text) : wslMountToWindows path = .ok (mountOf path) := by
  unfold wslMountToWindows mountOf
  cases path.stripPrefix "/mnt/".toList with
  | none => rfl
  | some rest =>
    cases rest with
    | nil => rfl
    | cons c rest =>
      by_cases hc : c = '/'
      · subst hc
        cases rest with
        | nil => rfl
        | cons d rest =>
          by_cases hd : d = '/'
          · subst hd
            rfl
          · simp [hd]
      · dsimp only
        cases rest with
        | nil =>
          have htake : [c].takeWhile (· != '/') = [c] := by simp [hc]
          have htail : ((splitOnce '/' [c]).map Prod.snd).getD [] = [] := by
            simp [splitOnce, hc]
          rw [htake, htail]
          exact mountLetter_eq c []
        | cons d rest =>
          by_cases hd : d = '/'
          · subst hd
            have htake : (c :: '/' :: rest).takeWhile (· != '/') = [c] := by simp [hc]
            have htail : ((splitOnce '/' (c :: '/' :: rest)).map Prod.snd).getD [] = rest := by
              simp [splitOnce, hc]
            rw [htake, htail]
            exact mountLetter_eq c rest
          · have htake : (c :: d :: rest).takeWhile (· != '/') =
                c :: d :: rest.takeWhile (· != '/') := by simp [hc, hd]
            have hcsize := c.utf8Size_pos
            have hdsize := d.utf8Size_pos
            rw [htake, if_pos (by rw [len, len]; omega)]
            split
            · rename_i heq
              cases heq
            · rename_i heq
              cases heq
              exact absurd rfl hd
            · rfl

theorem byteIs_one_iff {t : Text} :
    t.byteIs 1 c ↔ ∃ d rest, t = d :: c :: rest ∧ d.utf8Size = 1 := by
  rw [byteIs_iff]
  constructor
  · rintro ⟨u, v, rfl, hu⟩
    cases u with
    | nil => cases hu
    | cons d u =>
      cases u with
      | nil => exact ⟨d, v, rfl, by simpa [len] using hu⟩
      | cons e u =>
        have hd := d.utf8Size_pos
        have he := e.utf8Size_pos
        rw [len, len] at hu
        omega
  · rintro ⟨d, rest, rfl, hd⟩
    exact ⟨[d], rest, rfl, by rw [len, len_nil, hd]⟩

theorem byteIs_two (hc : c.utf8Size = 1) (rest : Text) (d : Char) :
    byteIs (c :: ':' :: rest) 2 d = (rest.head? == some d) := by
  have hcut := cut_append [c, ':'] rest
  rw [len, hc, show 1 + len [':'] = 2 from rfl] at hcut
  unfold byteIs
  rw [show c :: ':' :: rest = [c, ':'] ++ rest from rfl, hcut]
  cases rest <;> rfl

theorem rootDrive_eq (lower : Text) : rootDrive lower = .ok (driveRooted lower) := by
  unfold rootDrive
  by_cases hcolon : lower.byteIs 1 ':'
  · obtain ⟨c, rest, rfl, hc⟩ := byteIs_one_iff.mp hcolon
    have hlen : len [c, ':'] = 2 := by
      rw [len, hc]
      rfl
    have hto := sliceTo_append [c, ':'] rest
    have hfrom := sliceFrom_append [c, ':'] rest
    rw [hlen] at hto hfrom
    have hle : 2 ≤ len (c :: ':' :: rest) := by
      rw [show c :: ':' :: rest = [c, ':'] ++ rest from rfl, len_append, hlen]
      omega
    rw [hcolon, byteIs_two hc, decide_eq_true hle, Bool.and_self, Bool.true_and]
    unfold driveRooted
    by_cases hslash : rest.head? = some '/'
    · simp only [hslash, ne_eq, not_true_eq_false, and_false, if_false]
      rfl
    · have hslash' : (rest.head? == some '/') = false := beq_eq_false_iff_ne.mpr hslash
      simp only [hslash', hc, hslash, Bool.not_false, if_true, ne_eq, not_false_eq_true, and_self]
      rw [show c :: ':' :: rest = [c, ':'] ++ rest from rfl, hto, hfrom]
      rfl
  · have hguard : ¬ (2 ≤ lower.len && lower.byteIs 1 ':' && !lower.byteIs 2 '/') := by
      simp [hcolon]
    rw [if_neg hguard]
    unfold driveRooted
    split
    · rename_i c rest
      rw [if_neg fun h => hcolon (byteIs_one_iff.mpr ⟨c, rest, rfl, h.1⟩)]
    · rfl

theorem windowsProtected_eq (host : Host) (path : Text) :
    windowsProtected host path = .ok (windowsVerdict host path) := by
  unfold windowsProtected
  rw [rootDrive_eq]
  rfl

theorem isOsCriticalPath_eq (host : Host) (raw : Text) :
    isOsCriticalPath host raw = .ok (critical host raw) := by
  unfold isOsCriticalPath critical
  dsimp only
  by_cases hempty : raw.trim.isEmpty
  · rw [if_pos hempty, if_pos hempty]
  · rw [if_neg hempty, if_neg hempty]
    by_cases hdisk : isDiskDevice raw.trim
    · rw [if_pos hdisk, hdisk, Bool.true_or]
    · rw [if_neg hdisk, eq_false_of_ne_true hdisk, Bool.false_or, plainPath_eq]
      cases plainOf host raw.trim with
      | none => rfl
      | some path =>
        simp only [bind, Except.bind, wslMountToWindows_eq, pathVerdict]
        cases mountOf path with
        | some mapped => exact windowsProtected_eq host mapped
        | none =>
          dsimp only
          by_cases hwin : looksWindows path
          · rw [if_pos hwin, if_pos hwin, windowsProtected_eq]
          · rw [if_neg hwin, if_neg hwin]
            rfl

theorem sliceTo_drive {cwd : Text} (h : hasDrive cwd) : cwd.sliceTo 2 = .ok (cwd.take 2) := by
  unfold hasDrive at h
  split at h
  · rename_i c rest
    have hto := sliceTo_append [c, ':'] rest
    rw [len, utf8Size_of_isAlpha h] at hto
    exact hto
  · cases h

theorem operandIsProtected_eq (host : Host) (operand : Text) (cwd : Option Text) :
    operandIsProtected host operand cwd = .ok (protects host operand cwd) := by
  unfold operandIsProtected protects
  rw [plainPath_eq]
  cases plainOf host operand with
  | none => rfl
  | some path =>
    simp only [bind, Except.bind, globFixedPrefix_eq, isOsCriticalPath_eq]
    by_cases hempty : (fixedPart path).isEmpty
    · rw [if_pos hempty, if_pos hempty]
      cases path.isEmpty <;> cases isUnresolvable path <;> cases cwd <;> rfl
    rw [if_neg hempty, if_neg hempty]
    by_cases hunres : isUnresolvable (fixedPart path)
    · rw [if_pos hunres, if_pos hunres]
      rfl
    rw [if_neg hunres, if_neg hunres]
    by_cases hdrive : hasDrive (fixedPart path)
    · rw [if_pos hdrive, if_pos hdrive]
    rw [if_neg hdrive, if_neg hdrive]
    by_cases hslash : (fixedPart path).head? = some '/'
    · rw [if_pos hslash, if_pos hslash]
      cases critical host (fixedPart path) with
      | true => rfl
      | false =>
        cases "//".toList.isPrefixOf (fixedPart path) with
        | true => rfl
        | false =>
          cases hcwd : (cwd.map trimStart).filter hasDrive with
          | none => rfl
          | some drive =>
            have hdrive := (Option.filter_eq_some_iff.mp hcwd).2
            simp only [sliceTo_drive hdrive]
            rfl
    · rw [if_neg hslash, if_neg hslash]
      cases cwd <;> rfl

end OsGuard

end TerminalCommander
