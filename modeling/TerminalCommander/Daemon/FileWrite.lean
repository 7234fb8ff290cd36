import TerminalCommander.Daemon.Policy.Engine
import TerminalCommander.Lib.Handler

/-!
# Writing a file

`handle_file_write` of `daemon/src/ipc/handlers/file.rs` and `resolve_and_authorize_file_write` of
`common.rs`. What the calls to the file system answer and change is left open (`Os`), and so is the
verdict of the policy on a path. The handler makes the missing parent directory before it judges
the target and before it writes the `allow` row; otherwise nothing is changed before that row.
-/

namespace TerminalCommander

namespace FileWrite

open Policy List Handler

def MAX_FILE_WRITE_BYTES : Nat := 196608

inductive IpcErrorCode where
  | pathDenied | fileNotFound | oversizedRequest | internal
  deriving DecidableEq, Repr

structure IpcError where
  code : IpcErrorCode
  message : Text
  deriving DecidableEq, Repr

structure IoError where
  notFound : Bool
  text : Text
  deriving DecidableEq, Repr

inductive Call where
  | createDirAll (path : Text)
  | openAppend (path : Text)
  | create (path : Text)
  | writeAll (path content : Text)
  | syncAll (path : Text)
  | rename (path target : Text)
  | removeFile (path : Text)
  deriving DecidableEq, Repr

structure Os (σ : Type) where
  pathExists : σ → Text → Bool
  isDir : σ → Text → Bool
  /-- `symlink_metadata`, and whether that is of a regular file. -/
  isFile : σ → Text → Option Bool
  canonicalize : σ → Text → Except IoError Text
  perform : σ → Call → Except IoError Unit × σ

inductive AuditDecision where
  | allow | deny | error
  deriving DecidableEq, Repr

structure AuditRow where
  subject : Text
  decision : AuditDecision
  reason : Option Text
  metadataJson : Option Text
  profile : Text
  deriving DecidableEq, Repr

inductive Effect (σ : Type) where
  | audit (row : AuditRow)
  | call (call : Call) (before after : σ)

structure World (σ : Type) where
  fs : σ
  log : List (Effect σ)

structure FileWriteParams where
  path : Text
  content : Text
  createDirs : Bool
  append : Bool

structure FileWriteResponse where
  path : Text
  bytesWritten : Nat
  deriving DecidableEq, Repr

structure Daemon (σ : Type) where
  os : Os σ
  profile : PolicyProfile
  verdict : σ → Text → PolicyVerdict
  stamp : Text

/-! ## Paths -/

def isBlank (segment : Text) : Bool := segment.isEmpty || segment == ['.']

def parentOf : Text → Option Text
  | '/' :: path =>
    match (path.splitOn '/').reverse.dropWhile isBlank with
    | [] => none
    | _ :: front => some ('/' :: Text.join ['/'] (front.dropWhile isBlank).reverse)
  | _ => none

def joinName (dir name : Text) : Text :=
  if dir.getLast? = some '/' then dir ++ name else dir ++ '/' :: name

def splitTarget (path : Text) : Except IpcError (Text × Text) :=
  if path.head? ≠ some '/' then
    .error ⟨.pathDenied, "path '".toList ++ path ++
      ("' must be absolute (e.g. /home/u/project/out.txt); the daemon has no workspace root and " ++
        "would otherwise resolve it against its own working directory").toList⟩
  else if (pathComponents path).contains .parent then
    .error ⟨.pathDenied, "path '".toList ++ path ++
      "' contains '..' (parent-dir traversal not permitted for writes)".toList⟩
  else
    match fileName path, parentOf path with
    | none, _ => .error ⟨.pathDenied, "path '".toList ++ path ++
        "' has no file name component; file_write needs a target file path".toList⟩
    | _, none => .error ⟨.pathDenied, "path '".toList ++ path ++
        "' has no parent directory".toList⟩
    | some name, some parent => .ok (name, parent)

/-! ## The handler -/

section Handler

variable {σ : Type} (d : Daemon σ)

def World.after (w : World σ) (c : Call) : World σ :=
  ⟨(d.os.perform w.fs c).2, w.log ++ [.call c w.fs (d.os.perform w.fs c).2]⟩

def perform (c : Call) : Handler IpcError (World σ) (Except IoError Unit) :=
  fun w => (.ok (d.os.perform w.fs c).1, w.after d c)

def performAll : List Call → Handler IpcError (World σ) (Except IoError Unit)
  | [] => pure (.ok ())
  | c :: cs => do
    match ← perform d c with
    | .ok () => performAll cs
    | .error e => pure (.error e)

def metadataJson : Option Nat → Bool → Option Text
  | some b, true => some ("\x7b\"bytes_written\":".toList ++ Nat.toDigits 10 b ++
      ",\"append\":true\x7d".toList)
  | some b, false => some ("\x7b\"bytes_written\":".toList ++ Nat.toDigits 10 b ++ "\x7d".toList)
  | none, true => some "\x7b\"append\":true\x7d".toList
  | none, false => none

def emitFileWriteAudit (subject : Text) (decision : AuditDecision) (reason : Option Text)
    (bytes : Option Nat) (append : Bool) : Handler IpcError (World σ) Unit :=
  Handler.modify fun w => { w with
    log := w.log ++ [.audit ⟨subject, decision, reason, metadataJson bytes append,
      d.profile.debug⟩] }

def createParent (parent : Text) (createDirs : Bool) : Handler IpcError (World σ) Unit := do
  let w ← Handler.get
  if createDirs && !d.os.pathExists w.fs parent then
    if (d.verdict w.fs parent).decision = .deny then
      Handler.fail ⟨.pathDenied, (d.verdict w.fs parent).reason⟩
    else
      match ← perform d (.createDirAll parent) with
      | .ok () => pure ()
      | .error e =>
        Handler.fail ⟨.internal, "create_dirs '".toList ++ parent ++ "': ".toList ++ e.text⟩
  else pure ()

def authorize (s : σ) (name parent : Text) : Except IpcError Text := do
  let canonicalParent ← (d.os.canonicalize s parent).mapError fun e =>
    if e.notFound then ⟨.fileNotFound, "parent directory '".toList ++ parent ++
      "' does not exist (pass create_dirs to create it within an allowed path)".toList⟩
    else ⟨.internal, "resolve parent '".toList ++ parent ++ "': ".toList ++ e.text⟩
  if !d.os.isDir s canonicalParent then
    throw ⟨.pathDenied, "parent '".toList ++ canonicalParent ++ "' is not a directory".toList⟩
  let canonicalTarget := joinName canonicalParent name
  let target ← match d.os.canonicalize s canonicalTarget with
    | .ok existing => pure existing
    | .error e =>
      if e.notFound then pure canonicalTarget
      else throw ⟨.internal, "resolve write target '".toList ++ canonicalTarget ++
        "': ".toList ++ e.text⟩
  if (d.verdict s target).decision = .deny then
    throw ⟨.pathDenied, (d.verdict s target).reason⟩
  return target

def resolveAndAuthorizeFileWrite (path : Text) (createDirs : Bool) :
    Handler IpcError (World σ) Text := do
  let target ← Handler.ofExcept (splitTarget path)
  createParent d target.2 createDirs
  let w ← Handler.get
  Handler.ofExcept (authorize d w.fs target.1 target.2)

def writeContent (resolved content : Text) (append : Bool) :
    Handler IpcError (World σ) FileWriteResponse :=
  if append then do
    match ← performAll d [.openAppend resolved, .writeAll resolved content, .syncAll resolved] with
    | .ok () => pure ⟨resolved, content.len⟩
    | .error e =>
      Handler.fail ⟨.internal, "append '".toList ++ resolved ++ "': ".toList ++ e.text⟩
  else
    match parentOf resolved with
    | none => Handler.fail ⟨.internal, "resolved target '".toList ++ resolved ++
        "' has no parent".toList⟩
    | some parent => do
      let tmpPath := joinName parent (".".toList ++
        (fileName resolved).getD "file_write".toList ++ ".tc-write-".toList ++ d.stamp ++
        ".tmp".toList)
      match ← performAll d [.create tmpPath, .writeAll tmpPath content, .syncAll tmpPath,
          .rename tmpPath resolved] with
      | .ok () => pure ⟨resolved, content.len⟩
      | .error e => do
        let _ ← perform d (.removeFile tmpPath)
        Handler.fail ⟨.internal, "write '".toList ++ resolved ++ "': ".toList ++ e.text⟩

def finishFileWrite (params : FileWriteParams) :
    Except IpcError Text → Handler IpcError (World σ) FileWriteResponse
  | .error e => do
    emitFileWriteAudit d params.path (if e.code = .internal then .error else .deny)
      (some e.message) none params.append
    Handler.fail e
  | .ok resolved => do
    let w ← Handler.get
    if d.os.isFile w.fs resolved = some false then do
      let msg := "'".toList ++ resolved ++
        "' exists and is not a regular file; refusing to overwrite".toList
      emitFileWriteAudit d resolved .deny (some msg) none params.append
      Handler.fail ⟨.pathDenied, msg⟩
    else do
      emitFileWriteAudit d resolved .allow none (some params.content.len) params.append
      writeContent d resolved params.content params.append

def handleFileWrite (params : FileWriteParams) :
    Handler IpcError (World σ) FileWriteResponse :=
  if MAX_FILE_WRITE_BYTES < params.content.len then do
    let msg := "content is ".toList ++ Nat.toDigits 10 params.content.len ++
      " bytes; file_write cap is ".toList ++ Nat.toDigits 10 MAX_FILE_WRITE_BYTES ++
      " bytes".toList
    emitFileWriteAudit d params.path .deny (some msg) none params.append
    Handler.fail ⟨.oversizedRequest, msg⟩
  else do
    let resolved ← Handler.attempt
      (resolveAndAuthorizeFileWrite d params.path params.createDirs)
    finishFileWrite d params resolved

end Handler

/-! ## The order of the log -/

section Order

variable {σ : Type} {d : Daemon σ} {s : σ} {w : World σ} {log : List (Effect σ)}

def Allowed (log : List (Effect σ)) : Prop := ∃ row, .audit row ∈ log ∧ row.decision = .allow

def Ordered (log : List (Effect σ)) : Prop :=
  ∀ front call before after rest, log = front ++ .call call before after :: rest →
    before ≠ after → Allowed front

theorem Ordered.nil : Ordered ([] : List (Effect σ)) :=
  fun front _ _ _ _ h =>
    absurd h.symm (append_ne_nil_of_right_ne_nil front (cons_ne_nil _ _))

theorem Ordered.concat (h : Ordered log) {x : Effect σ}
    (hx : ∀ call before after, x = .call call before after → before ≠ after → Allowed log) :
    Ordered (log ++ [x]) := by
  intro front call before after rest heq hne
  rcases eq_nil_or_concat' rest with rfl | ⟨init, last, rfl⟩
  · obtain ⟨rfl, hlast⟩ := append_inj' heq rfl
    exact hx call before after (List.cons.inj hlast).1 hne
  · rw [← cons_append, ← append_assoc] at heq
    exact h front call before after init (append_inj' heq rfl).1 hne

theorem Ordered.of_append {more : List (Effect σ)} (h : Ordered (log ++ more)) : Ordered log := by
  intro front call before after rest heq
  refine h front call before after (rest ++ more) ?_
  rw [heq, append_assoc, cons_append]

def Permitted (d : Daemon σ) (log : List (Effect σ)) : Prop :=
  ∀ p before after, .call (.createDirAll p) before after ∈ log → ∀ path,
    d.os.isDir before path = false → d.os.isDir after path = true →
      (d.verdict before path).decision ≠ .deny

theorem Permitted.concat (h : Permitted d log) {x : Effect σ}
    (hx : ∀ p before after, x = .call (.createDirAll p) before after → before = after) :
    Permitted d (log ++ [x]) := by
  intro p before after hmem path hold hnew
  rcases mem_append.mp hmem with hmem | hmem
  · exact h p before after hmem path hold hnew
  · rw [hx p before after (mem_singleton.mp hmem).symm, hnew] at hold
    cases hold

structure Audited (d : Daemon σ) (w : World σ) : Prop where
  ordered : Ordered w.log
  allowed : Allowed w.log
  permitted : Permitted d w.log

theorem Audited.after (h : Audited d w) {c : Call} (hc : ∀ p, c ≠ .createDirAll p) :
    Audited d (w.after d c) := by
  refine ⟨h.ordered.concat fun _ _ _ _ _ => h.allowed, ?_, h.permitted.concat fun p _ _ hx => ?_⟩
  · obtain ⟨row, hmem, hallow⟩ := h.allowed
    exact ⟨row, mem_append_left _ hmem, hallow⟩
  · exact absurd (Effect.call.inj hx).1 (hc p)

/-! ## The write -/

variable {P : World σ → Prop}

theorem spec_performAll (hP : ∀ c w, (∀ p, c ≠ .createDirAll p) → P w → P (w.after d c))
    {calls : List Call} (hcalls : ∀ c ∈ calls, ∀ p, c ≠ .createDirAll p) :
    Handler.Spec P (performAll d calls) (fun _ => P) P := by
  induction calls with
  | nil => exact spec_pure fun _ hw => hw
  | cons c calls ih =>
    have hfirst : Handler.Spec P (perform d c) (fun _ => P) P :=
      fun w hw => hP c w (hcalls c mem_cons_self) hw
    refine spec_bind hfirst fun r => ?_
    cases r with
    | ok _ => exact ih fun c' hc' => hcalls c' (mem_cons_of_mem c hc')
    | error e => exact spec_pure fun _ hw => hw

theorem spec_writeContent (hP : ∀ c w, (∀ p, c ≠ .createDirAll p) → P w → P (w.after d c))
    (resolved content : Text) (append : Bool) :
    Handler.Spec P (writeContent d resolved content append) (fun _ => P) P := by
  unfold writeContent
  refine spec_ite (fun _ => ?_) fun _ => ?_
  · refine spec_bind (spec_performAll hP (by simp)) fun r => ?_
    cases r with
    | ok _ => exact spec_pure fun _ hw => hw
    | error e => exact spec_fail fun _ hw => hw
  · cases parentOf resolved with
    | none => exact spec_fail fun _ hw => hw
    | some parent =>
      refine spec_bind (spec_performAll hP (by simp)) fun r => ?_
      cases r with
      | ok _ => exact spec_pure fun _ hw => hw
      | error e =>
        have hremove : ∀ tmp, Handler.Spec P (perform d (.removeFile tmp)) (fun _ => P) P :=
          fun tmp w hw => hP _ w (by simp) hw
        exact spec_bind (hremove _) fun _ => spec_fail fun _ hw => hw

theorem performAll_returns (calls : List Call) :
    ∀ w : World σ, ∃ r w', performAll d calls w = (.ok r, w') := by
  induction calls with
  | nil => exact fun w => ⟨_, _, rfl⟩
  | cons c calls ih =>
    intro w
    have hrun : performAll d (c :: calls) w = _ :=
      bind_of_ok (show perform d c w = (.ok _, w.after d c) from rfl)
    rw [hrun]
    cases (d.os.perform w.fs c).1 with
    | ok _ => exact ih _
    | error e => exact ⟨_, _, rfl⟩

theorem writeContent_error {resolved content : Text} {append : Bool} {e : IpcError}
    (h : (writeContent d resolved content append w).1 = .error e) : e.code = .internal := by
  unfold writeContent at h
  split_ifs at h
  · obtain ⟨r, w', hrun⟩ := performAll_returns (d := d) [.openAppend resolved,
      .writeAll resolved content, .syncAll resolved] w
    rw [bind_of_ok hrun] at h
    cases r <;> cases h
    rfl
  · cases hparent : parentOf resolved with
    | none =>
      rw [hparent] at h
      cases h
      rfl
    | some parent =>
      rw [hparent] at h
      dsimp only at h
      generalize joinName parent _ = tmp at h
      obtain ⟨r, w', hrun⟩ := performAll_returns (d := d) [.create tmp, .writeAll tmp content,
        .syncAll tmp, .rename tmp resolved] w
      rw [bind_of_ok hrun] at h
      cases r <;> cases h
      rfl

/-! ## The resolution -/

def madeParent (d : Daemon σ) (s : σ) (path : Text) (createDirs : Bool) : Option Text :=
  match splitTarget path with
  | .error _ => none
  | .ok target =>
    if createDirs = true ∧ d.os.pathExists s target.2 = false ∧
        (d.verdict s target.2).decision ≠ .deny then some target.2
    else none

theorem createParent_state (parent : Text) (createDirs : Bool) (w : World σ) :
    (createParent d parent createDirs w).2 =
      if createDirs ∧ d.os.pathExists w.fs parent = false ∧
        (d.verdict w.fs parent).decision ≠ .deny then w.after d (.createDirAll parent) else w := by
  have hget : createParent d parent createDirs w = _ :=
    bind_of_ok (show get w = (.ok w, w) from rfl)
  rw [hget]
  by_cases hmissing : createDirs ∧ d.os.pathExists w.fs parent = false
  · rw [if_pos (by rw [hmissing.1, hmissing.2]; rfl)]
    by_cases hdeny : (d.verdict w.fs parent).decision = .deny
    · rw [if_pos hdeny, if_neg fun h => h.2.2 hdeny]
      rfl
    · rw [if_neg hdeny, if_pos ⟨hmissing.1, hmissing.2, hdeny⟩]
      refine bind_state (fun r s' => ?_) w
      cases r <;> rfl
  · rw [if_neg (by simpa using hmissing), if_neg fun h => hmissing ⟨h.1, h.2.1⟩]
    rfl

theorem resolve_state (path : Text) (createDirs : Bool) (w : World σ) :
    (resolveAndAuthorizeFileWrite d path createDirs w).2 =
      (madeParent d w.fs path createDirs).elim w fun parent => w.after d (.createDirAll parent) := by
  unfold resolveAndAuthorizeFileWrite madeParent
  cases splitTarget path with
  | error e => rfl
  | ok target =>
    have hreads : ∀ (u : Unit) (s' : World σ), ((do
        let w ← get
        ofExcept (authorize d w.fs target.1 target.2) :
          Handler IpcError (World σ) Text) s').2 = s' := by
      intro u s'
      show ((ofExcept (authorize d s'.fs target.1 target.2) :
        Handler IpcError (World σ) Text) s').2 = s'
      cases authorize d s'.fs target.1 target.2 <;> rfl
    refine (bind_state hreads w).trans ?_
    rw [createParent_state]
    dsimp only
    split_ifs <;> rfl

/-! ## The call -/

structure Safe (d : Daemon σ) (s : σ) (run : Except IpcError FileWriteResponse × World σ) :
    Prop where
  ordered : Ordered run.2.log
  refused : ∀ e, run.1 = .error e → e.code ≠ .internal → run.2.fs = s
  permitted : Permitted d run.2.log

theorem Ordered.audit (h : Ordered log) (row : AuditRow) : Ordered (log ++ [.audit row]) :=
  h.concat fun _ _ _ hx _ => by cases hx

theorem Permitted.audit (h : Permitted d log) (row : AuditRow) :
    Permitted d (log ++ [.audit row]) := h.concat fun _ _ _ hx => by cases hx

theorem safe_finish (params : FileWriteParams) (hlog : Ordered w.log) (hdirs : Permitted d w.log)
    (hfs : w.fs = s) (r : Except IpcError Text) : Safe d s (finishFileWrite d params r w) := by
  cases r with
  | error e => exact ⟨hlog.audit _, fun _ _ _ => hfs, hdirs.audit _⟩
  | ok resolved =>
    show Safe d s ((if d.os.isFile w.fs resolved = some false then _ else _ :
      Handler IpcError (World σ) FileWriteResponse) w)
    split_ifs
    · exact ⟨hlog.audit _, fun _ _ _ => hfs, hdirs.audit _⟩
    · show Safe d s (writeContent d resolved params.content params.append _)
      have hstart : Audited d ⟨w.fs, w.log ++ [.audit ⟨resolved, .allow, none,
          metadataJson (some params.content.len) params.append, d.profile.debug⟩]⟩ :=
        ⟨hlog.audit _, ⟨_, mem_append_right _ mem_cons_self, rfl⟩, hdirs.audit _⟩
      have hend := (spec_writeContent (fun _ _ hc h => h.after hc) resolved params.content
        params.append).state hstart
      exact ⟨hend.ordered, fun e he hcode => absurd (writeContent_error he) hcode, hend.permitted⟩

theorem not_ordered_finish (params : FileWriteParams) (hlog : ¬ Ordered w.log)
    (r : Except IpcError Text) : ¬ Ordered (finishFileWrite d params r w).2.log := by
  cases r with
  | error e => exact fun h => hlog h.of_append
  | ok resolved =>
    show ¬ Ordered ((if d.os.isFile w.fs resolved = some false then _ else _ :
      Handler IpcError (World σ) FileWriteResponse) w).2.log
    split_ifs
    · exact fun h => hlog h.of_append
    · refine (spec_writeContent (P := fun w => ¬ Ordered w.log)
        (fun _ _ _ h hlater => h hlater.of_append) resolved params.content params.append).state ?_
      exact fun h => hlog h.of_append

end Order

/-- **Writing a file.** A call changes nothing before its `allow` row, leaves nothing behind when it
is refused and makes no directory that may not be written, if the making of its missing parent
directory changes nothing, and only then. No directory is made if the content is too long, the path
is relative, has a `..` or no file name, `create_dirs` is off, the parent exists, or the policy
denies it. -/
theorem write_is_safe_iff {σ : Type} (d : Daemon σ) (s : σ) (params : FileWriteParams) :
    Safe d s (handleFileWrite d params ⟨s, []⟩) ↔
      (params.content.len ≤ MAX_FILE_WRITE_BYTES →
        ∀ parent ∈ madeParent d s params.path params.createDirs,
          (d.os.perform s (.createDirAll parent)).2 = s) := by
  have hnone : Permitted d [] := fun _ _ _ h => by cases h
  unfold handleFileWrite
  split_ifs with hlarge
  · exact iff_of_true ⟨Ordered.nil.audit _, fun _ _ _ => rfl, hnone.audit _⟩
      fun hsmall => absurd hlarge (Nat.not_lt.mpr hsmall)
  · have hrun := resolve_state (d := d) params.path params.createDirs ⟨s, []⟩
    show Safe d s (finishFileWrite d params _ (resolveAndAuthorizeFileWrite d params.path
      params.createDirs ⟨s, []⟩).2) ↔ _
    rw [hrun]
    cases hmade : madeParent d s params.path params.createDirs with
    | none =>
      refine iff_of_true (safe_finish (w := ⟨s, []⟩) params Ordered.nil hnone rfl _)
        fun _ _ h => ?_
      cases h
    | some parent =>
      constructor
      · intro hsafe _ _ hparent
        cases hparent
        by_contra hchange
        refine not_ordered_finish params (fun hlog => ?_) _ hsafe.ordered
        obtain ⟨row, hmem, -⟩ := hlog [] _ _ _ [] rfl (Ne.symm hchange)
        cases hmem
      · intro hsame
        have hfs := hsame (Nat.not_lt.mp hlarge) parent rfl
        refine safe_finish params (Ordered.nil.concat fun _ _ _ hx hne => ?_)
          (hnone.concat fun _ _ _ hx => ?_) hfs _
        · cases hx
          exact absurd hfs.symm hne
        · cases hx
          exact hfs.symm

/-! ## A write that is denied -/

def dirsOs : Os (List Text) where
  pathExists dirs path := dirs.contains path
  isDir dirs path := dirs.contains path
  isFile dirs path := if dirs.contains path then some false else none
  canonicalize dirs path :=
    if dirs.contains path then .ok path
    else .error ⟨true, "No such file or directory (os error 2)".toList⟩
  perform dirs call :=
    match call with
    | .createDirAll path => (.ok (), path :: dirs)
    | _ => (.error ⟨false, "No space left on device (os error 28)".toList⟩, dirs)

def emptyMachine : Machine where
  tree.node p := if p = [] then some .directory else none
  tree.root := rfl
  tree.parent := by simp
  cwd := []
  systemDrive := none

def developerDaemon : Daemon (List Text) where
  os := dirsOs
  profile := .developerLocal
  verdict _ path := (PolicyEngine.withConfig emptyMachine .developerLocal none none).judge
    emptyMachine (.fileWrite path)
  stamp := "1-1".toList

def credentialsRequest : FileWriteParams := ⟨"/work/.aws/credentials".toList, [], true, false⟩

def credentialsRun : Except IpcError FileWriteResponse × World (List Text) :=
  handleFileWrite developerDaemon credentialsRequest ⟨[], []⟩

/-- The directory may be written and is made; the file in it may not. -/
theorem denied_write_leaves_directory :
    credentialsRun.1.mapError IpcError.code = .error .pathDenied ∧
      credentialsRun.2.fs = ["/work/.aws".toList] := by
  decide +kernel

end FileWrite

end TerminalCommander
