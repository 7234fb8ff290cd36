import Mathlib.Data.List.Sort
import TerminalCommander.Core.Rule

/-!
# The sifter runtime

`SifterRuntime` after `sifters/src/lib.rs`: a list of rules is compiled into one multi-pattern
automaton over the keywords and one regex set, and a frame is evaluated by one pass of each. Every
draft is tagged with the index of its rule; `evaluate` forgets the tags. The text is searched by
characters where the source searches bytes: a valid pattern occurs at character boundaries only.
-/

namespace TerminalCommander

def MAX_SIFT_BYTES : Nat := 8192

structure SourceFrame where
  frameId : FrameId
  probeId : ProbeId
  stream : SourceStream
  text : Text
  line : Option Nat
  byteOffset : Option Nat
  deriving DecidableEq, Repr

inductive SifterError where
  | notActive (id : Text)
  | kindNotImplemented (id : Text) (kind : RuleType)
  | regexCompile (id reason : Text)
  | emptyKeywords (id : Text)
  | missingPattern (id : Text)
  | invalid (id : Text) (e : RuleError)
  deriving DecidableEq, Repr

structure RegexRule (x : Externals) where
  rule : RuleDefinition
  compiled : x.Regex

structure KeywordRule where
  rule : RuleDefinition
  keywords : List Text
  deriving DecidableEq, Repr

structure SifterRuntimeInner (x : Externals) where
  keywordRules : List KeywordRule
  keywordAc : Option x.AhoCorasick
  kwPatternToRule : List Nat
  regexRules : List (RegexRule x)
  regexSet : Option x.RegexSet

/-! ## Building -/

def sortedKeywords (kws : List Text) : List Text := kws.insertionSort fun a b => Text.le a b = true

structure BuildAcc (x : Externals) where
  keywordRules : List KeywordRule
  kwPatterns : List Text
  kwPatternToRule : List Nat
  regexRules : List (RegexRule x)

def BuildAcc.addKeyword {x : Externals} (acc : BuildAcc x) (rule : RuleDefinition) :
    Except SifterError (BuildAcc x) :=
  match rule.keywords with
  | none => .error (.emptyKeywords rule.id)
  | some kws =>
    if kws = [] then .error (.emptyKeywords rule.id)
    else
      let sorted := sortedKeywords kws
      .ok { acc with
        keywordRules := acc.keywordRules ++ [⟨rule, sorted⟩]
        kwPatterns := acc.kwPatterns ++ sorted
        kwPatternToRule := acc.kwPatternToRule ++ sorted.map fun _ => acc.keywordRules.length }

def BuildAcc.addRegex {x : Externals} (acc : BuildAcc x) (rule : RuleDefinition) :
    Except SifterError (BuildAcc x) :=
  match rule.pattern with
  | none => .error (.missingPattern rule.id)
  | some pat =>
    match x.compileBoundedRegex pat with
    | .error reason => .error (.regexCompile rule.id reason)
    | .ok compiled => .ok { acc with regexRules := acc.regexRules ++ [⟨rule, compiled⟩] }

def BuildAcc.add {x : Externals} (acc : BuildAcc x) (rule : RuleDefinition) :
    Except SifterError (BuildAcc x) :=
  match rule.validate x with
  | .error e => .error (.invalid rule.id e)
  | .ok () =>
    if rule.status.isRuntimeEligible then
      match rule.kind with
      | .keyword => acc.addKeyword rule
      | .regex => acc.addRegex rule
      | other => .error (.kindNotImplemented rule.id other)
    else .error (.notActive rule.id)

def BuildAcc.addAll {x : Externals} : List RuleDefinition → BuildAcc x →
    Except SifterError (BuildAcc x)
  | [], acc => .ok acc
  | rule :: rules, acc => acc.add rule >>= addAll rules

def buildKeywordAc (x : Externals) (patterns : List Text) :
    Except SifterError (Option x.AhoCorasick) :=
  if patterns = [] then .ok none
  else match x.newAhoCorasick patterns with
    | .error reason => .error (.regexCompile "<aho>".toList reason)
    | .ok ac => .ok (some ac)

def buildRegexSet (x : Externals) (rules : List (RegexRule x)) :
    Except SifterError (Option x.RegexSet) :=
  if rules.isEmpty then .ok none
  else match x.compileBoundedRegexSet (rules.map fun r => r.rule.pattern.getD []) with
    | .error reason => .error (.regexCompile "<set>".toList reason)
    | .ok set => .ok (some set)

def buildInner (x : Externals) (rules : List RuleDefinition) :
    Except SifterError (SifterRuntimeInner x) := do
  let acc ← BuildAcc.addAll rules ⟨[], [], [], []⟩
  let keywordAc ← buildKeywordAc x acc.kwPatterns
  let regexSet ← buildRegexSet x acc.regexRules
  .ok ⟨acc.keywordRules, keywordAc, acc.kwPatternToRule, acc.regexRules, regexSet⟩

/-! ## Drafts -/

def capText (text : Text) : Text × Nat :=
  if text.len ≤ MAX_SIFT_BYTES then (text, 0)
  else
    let kept := text.takeBytes MAX_SIFT_BYTES
    (kept, min (text.len - kept.len) u32Max)

def streamMatches (ruleStream : Option SourceStream) (frameStream : SourceStream) : Bool :=
  ruleStream.all fun s => decide (s = frameStream)

def matchIndexForPattern (patIdx ruleIdx : Nat) (map : List Nat) : Nat :=
  (map.take patIdx).countP fun r => decide (r = ruleIdx)

def Captures.containsKey (captures : Captures) (key : Text) : Bool :=
  captures.any fun entry => decide (entry.1 = key)

def Captures.insert (captures : Captures) (key value : Text) : Captures :=
  if captures.containsKey key then
    captures.map fun entry => if entry.1 = key then (key, value) else entry
  else captures ++ [(key, value)]

def fullMatchValue (text : Text) (redact : List Text) : Text :=
  if redact = [] then clampFullMatch text
  else "<full match suppressed: rule declares redact>".toList

def injectFullMatch (captures : Captures) (text : Text) (redact : List Text) :
    Captures × List Text :=
  RESERVED_MATCH_KEYS.foldl (fun (acc : Captures × List Text) key =>
    if acc.1.containsKey key then acc
    else (acc.1 ++ [(key, fullMatchValue text redact)], acc.2 ++ [key])) (captures, [])

def collapseFullMatchCaptures (captures : Captures) (injected : List Text) : Captures :=
  injected.foldl (fun acc key =>
    if key ≠ CANONICAL_MATCH_KEY then acc.filter fun entry => decide (entry.1 ≠ key) else acc)
    captures

def draftOf (x : Externals) (rule : RuleDefinition) (frame : SourceFrame) (bucketId : BucketId)
    (captures : Captures) (injected : List Text) (frameTruncatedBytes : Nat) (now : Time) :
    EventDraft where
  bucketId := bucketId
  timestamp := now
  severity := rule.severity
  kind := rule.eventKind
  summary := match rule.renderSummary captures with
    | .ok s => s
    | .error _ => rule.summaryTemplate
  rule := some ⟨x.newV5 rule.id, rule.version, some rule.id⟩
  source := ⟨frame.probeId, .process, frame.stream, none⟩
  captures := some (collapseFullMatchCaptures captures injected)
  pointer := some ⟨frame.frameId, frame.line, frame.byteOffset, none, some frame.stream, true⟩
  pointerUnavailableReason := none
  tags := if rule.tags = [] then none else some rule.tags
  frameTruncatedBytes := frameTruncatedBytes
  count := 1
  firstSeen := none
  lastSeen := none
  suppressed := false

def buildDraft (x : Externals) (rule : RuleDefinition) (frame : SourceFrame) (bucketId : BucketId)
    (captures : Captures) (injected : List Text) (frameTruncatedBytes : Nat) (now : Time) :
    Option EventDraft :=
  let draft := draftOf x rule frame bucketId captures injected frameTruncatedBytes now
  match draft.validate with
  | .ok () => some draft
  | .error _ => none

theorem buildDraft_eq (x : Externals) (rule : RuleDefinition) (frame : SourceFrame)
    (bucketId : BucketId) (captures : Captures) (injected : List Text) (truncated : Nat)
    (now : Time) : buildDraft x rule frame bucketId captures injected truncated now =
      some (draftOf x rule frame bucketId captures injected truncated now) := by
  have hv : (draftOf x rule frame bucketId captures injected truncated now).validate = .ok () :=
    EventDraft.validate_of_pointer rfl
  simp only [buildDraft, hv]

/-! ## Evaluating a frame -/

structure SiftInput where
  frame : SourceFrame
  bucketId : BucketId
  now : Time
  deriving DecidableEq, Repr

def SiftInput.text (input : SiftInput) : Text := (capText input.frame.text).1

def SiftInput.truncatedBytes (input : SiftInput) : Nat := (capText input.frame.text).2

def SiftInput.draft (x : Externals) (input : SiftInput) (rule : RuleDefinition)
    (captures : Captures) : Option EventDraft :=
  let injected := injectFullMatch captures input.text rule.redact
  buildDraft x rule input.frame input.bucketId injected.1 injected.2 input.truncatedBytes input.now

structure KeywordAcc where
  fired : List Bool
  out : List (Nat × EventDraft)

namespace SifterRuntimeInner

variable {x : Externals}

def ruleOfMatch (inner : SifterRuntimeInner x) (mat : PatternScan.Match) :
    Option (Nat × KeywordRule) := do
  let ruleIdx ← inner.kwPatternToRule[mat.pattern]?
  let rule ← inner.keywordRules[ruleIdx]?
  some (ruleIdx, rule)

def kwToken (inner : SifterRuntimeInner x) (mat : PatternScan.Match) (ruleIdx : Nat)
    (rule : KeywordRule) : Text :=
  (rule.keywords[matchIndexForPattern mat.pattern ruleIdx inner.kwPatternToRule]?).getD []

def keywordStep (inner : SifterRuntimeInner x) (input : SiftInput) (acc : KeywordAcc)
    (mat : PatternScan.Match) : KeywordAcc :=
  match inner.ruleOfMatch mat with
  | none => acc
  | some (ruleIdx, rule) =>
    if acc.fired[ruleIdx]? = some true then acc
    else if streamMatches rule.rule.stream input.frame.stream then
      { fired := acc.fired.set ruleIdx true
        out := acc.out ++ ((input.draft x rule.rule
          [("keyword".toList, inner.kwToken mat ruleIdx rule)]).toList.map fun d => (ruleIdx, d)) }
    else acc

def keywordPass (inner : SifterRuntimeInner x) (input : SiftInput) : List (Nat × EventDraft) :=
  match inner.keywordAc with
  | none => []
  | some ac =>
    ((x.findIter ac input.text).foldl (inner.keywordStep input)
      ⟨inner.keywordRules.map fun _ => false, []⟩).out

def namedCaptures (rule : RegexRule x) (groups : Text → Option Text) : Captures :=
  let named := (x.captureNames rule.compiled).foldl (fun (acc : Captures) name =>
    match groups name with
    | some value => acc.insert name value
    | none => acc) []
  rule.rule.redact.foldl (fun (acc : Captures) r =>
    if acc.containsKey r then acc.insert r "<redacted>".toList else acc) named

def regexStep (inner : SifterRuntimeInner x) (input : SiftInput) (hit : Nat) :
    List (Nat × EventDraft) :=
  match inner.regexRules[hit]? with
  | none => []
  | some rule =>
    if streamMatches rule.rule.stream input.frame.stream then
      match x.captures rule.compiled input.text with
      | none => []
      | some groups =>
        (input.draft x rule.rule (namedCaptures rule groups)).toList.map fun d =>
          (inner.keywordRules.length + hit, d)
    else []

def regexPass (inner : SifterRuntimeInner x) (input : SiftInput) : List (Nat × EventDraft) :=
  match inner.regexSet with
  | none => []
  | some set => (x.setMatches set input.text).flatMap (inner.regexStep input)

def evaluateTagged (inner : SifterRuntimeInner x) (input : SiftInput) : List (Nat × EventDraft) :=
  inner.keywordPass input ++ inner.regexPass input

def evaluate (inner : SifterRuntimeInner x) (frame : SourceFrame) (bucketId : BucketId)
    (now : Time) : List EventDraft :=
  (inner.evaluateTagged ⟨frame, bucketId, now⟩).map Prod.snd

end SifterRuntimeInner

/-! ## The hot-swapped runtime -/

structure SifterRuntime (x : Externals) where
  inner : SifterRuntimeInner x

structure RebindReport where
  oldRuleCount : Nat
  newRuleCount : Nat
  deriving DecidableEq, Repr

namespace SifterRuntime

variable {x : Externals}

def build (x : Externals) (rules : List RuleDefinition) : Except SifterError (SifterRuntime x) :=
  (buildInner x rules).map SifterRuntime.mk

def ruleCount (rt : SifterRuntime x) : Nat :=
  rt.inner.keywordRules.length + rt.inner.regexRules.length

def rebuild (rt : SifterRuntime x) (rules : List RuleDefinition) :
    Except SifterError RebindReport × SifterRuntime x :=
  match build x rules with
  | .error e => (.error e, rt)
  | .ok rt' => (.ok ⟨rt.ruleCount, rt'.ruleCount⟩, rt')

def evaluate (rt : SifterRuntime x) (frame : SourceFrame) (bucketId : BucketId) (now : Time) :
    List EventDraft :=
  rt.inner.evaluate frame bucketId now

end SifterRuntime

end TerminalCommander
