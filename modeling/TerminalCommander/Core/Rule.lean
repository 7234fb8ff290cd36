import TerminalCommander.Core.Event
import TerminalCommander.Lib.PatternScan

/-!
# Rule definitions

The record of one rule, its validation and the summary template, after `core/src/rule.rs`. The
regex, multi-pattern, case-mapping and id-hashing libraries are the fields of `Externals`; nothing
is assumed of them here. The template loops walk the characters once and carry the placeholder
they are in, which finds the first closing brace as the source's `find` does.
-/

namespace TerminalCommander

structure Externals where
  Regex : Type
  RegexSet : Type
  AhoCorasick : Type
  /-- `compile_bounded_regex`: the crate's builder under the two size limits. -/
  compileBoundedRegex : Text → Except Text Regex
  /-- `compile_bounded_regex_set`. -/
  compileBoundedRegexSet : List Text → Except Text RegexSet
  /-- `RegexSet::matches`, the indices in ascending order. -/
  setMatches : RegexSet → Text → List Nat
  /-- `Regex::capture_names`, without the unnamed groups. -/
  captureNames : Regex → List Text
  /-- `Regex::captures`: the text of each named group that took part, if there is a match. -/
  captures : Regex → Text → Option (Text → Option Text)
  /-- `AhoCorasick::new`. -/
  newAhoCorasick : List Text → Except Text AhoCorasick
  /-- `AhoCorasick::find_iter`. -/
  findIter : AhoCorasick → Text → List PatternScan.Match
  /-- `str::to_lowercase`. -/
  toLowercase : Text → Text
  /-- `Uuid::new_v5` in the namespace of rule ids. -/
  newV5 : Text → RuleId

def MAX_PATTERN_BYTES : Nat := 4096
def MAX_TAG_BYTES : Nat := 64
def MAX_TAGS : Nat := 16
def MAX_EXAMPLES : Nat := 16
def MAX_RULE_ID_BYTES : Nat := 128
def MAX_TEMPLATE_BYTES : Nat := 512
def MAX_CONTEXT_LINES : Nat := 1024
def MAX_FULL_MATCH_SUMMARY_BYTES : Nat := 256

def RESERVED_MATCH_KEYS : List Text := ["line".toList, "match".toList, "0".toList]

def CANONICAL_MATCH_KEY : Text := "match".toList

def isReservedMatchKey (name : Text) : Bool := decide (name ∈ RESERVED_MATCH_KEYS)

def clampFullMatch (text : Text) : Text :=
  if text.len ≤ MAX_FULL_MATCH_SUMMARY_BYTES then text
  else text.takeBytes MAX_FULL_MATCH_SUMMARY_BYTES

inductive RuleType where
  | keyword | regex | prompt | exitCode | streamMarker | progressCollapse | dedupe | threshold
  | sequence | anchor | custom
  deriving DecidableEq, Repr

def RuleType.isMvpLive : RuleType → Bool
  | .keyword => true
  | .regex => true
  | _ => false

inductive RuleStatus where
  | draft | active | disabled | deprecated | tombstoned
  deriving DecidableEq, Repr

def RuleStatus.isRuntimeEligible : RuleStatus → Bool
  | .active => true
  | _ => false

structure ContextHint where
  beforeLines : Nat
  afterLines : Nat
  deriving DecidableEq, Repr

inductive RuleExampleExpect where
  | isMatch (kind : Option Text) (captures : Captures)
  | noMatch (expected : Bool)
  deriving DecidableEq, Repr

structure RuleExample where
  stream : Option SourceStream
  input : Text
  expect : RuleExampleExpect
  deriving DecidableEq, Repr

structure RuleDefinition where
  id : Text
  version : Nat
  kind : RuleType
  status : RuleStatus
  severity : Severity
  eventKind : Text
  stream : Option SourceStream
  description : Option Text := none
  pattern : Option Text
  keywords : Option (List Text)
  captures : List Text
  summaryTemplate : Text
  tags : List Text
  rateLimitPerMin : Option Nat := none
  redact : List Text
  contextHint : ContextHint
  examples : List RuleExample
  deriving DecidableEq, Repr

inductive RuleError where
  | emptyRuleId
  | ruleIdTooLong (id : Text)
  | invalidVersion (version : Nat)
  | emptyEventKind (id : Text)
  | missingPattern (id : Text) (kind : RuleType)
  | missingKeywords (id : Text) (kind : RuleType)
  | patternTooLong (id : Text)
  | forbiddenPatternFeature (id feature detail : Text)
  | patternCompileFailed (id reason : Text)
  | emptySummaryTemplate (id : Text)
  | summaryTemplateTooLong (id : Text)
  | summaryTemplateUnknownCapture (id name : Text)
  | unbalancedTemplate (id : Text) (offset : Nat)
  | tooManyTags (id : Text)
  | invalidTag (id tag : Text)
  | tooManyExamples (id : Text)
  | contextHintTooLarge (id : Text) (before after : Nat)
  | reservedKindNotDraft (id : Text) (kind : RuleType) (status : RuleStatus)
  deriving DecidableEq, Repr

def RuleType.debug : RuleType → Text
  | .keyword => "Keyword".toList
  | .regex => "Regex".toList
  | .prompt => "Prompt".toList
  | .exitCode => "ExitCode".toList
  | .streamMarker => "StreamMarker".toList
  | .progressCollapse => "ProgressCollapse".toList
  | .dedupe => "Dedupe".toList
  | .threshold => "Threshold".toList
  | .sequence => "Sequence".toList
  | .anchor => "Anchor".toList
  | .custom => "Custom".toList

def RuleStatus.debug : RuleStatus → Text
  | .draft => "Draft".toList
  | .active => "Active".toList
  | .disabled => "Disabled".toList
  | .deprecated => "Deprecated".toList
  | .tombstoned => "Tombstoned".toList

def Text.ofNat (n : Nat) : Text := Nat.toDigits 10 n

def aboutRule (id rest : Text) : Text := "rule '".toList ++ id ++ "' ".toList ++ rest

def RuleError.display : RuleError → Text
  | emptyRuleId => "rule id is empty".toList
  | ruleIdTooLong id => "rule id '".toList ++ id ++ "' exceeds the ".toList ++
      Text.ofNat MAX_RULE_ID_BYTES ++ "-byte limit".toList
  | invalidVersion version => "rule version must be >= 1, got ".toList ++ Text.ofNat version
  | emptyEventKind id => aboutRule id "has empty event_kind".toList
  | missingPattern id kind => aboutRule id
      ("kind=".toList ++ kind.debug ++ " requires a non-empty pattern".toList)
  | missingKeywords id kind => aboutRule id
      ("kind=".toList ++ kind.debug ++ " requires a non-empty keywords list".toList)
  | patternTooLong id => aboutRule id
      ("pattern exceeds the ".toList ++ Text.ofNat MAX_PATTERN_BYTES ++ "-byte limit".toList)
  | forbiddenPatternFeature id feature detail => aboutRule id
      ("pattern contains forbidden construct ".toList ++ feature ++ ": ".toList ++ detail)
  | patternCompileFailed id reason => aboutRule id
      ("pattern failed to compile: ".toList ++ reason)
  | emptySummaryTemplate id => aboutRule id "has empty summary_template".toList
  | summaryTemplateTooLong id => aboutRule id ("summary_template exceeds the ".toList ++
      Text.ofNat MAX_TEMPLATE_BYTES ++ "-byte limit".toList)
  | summaryTemplateUnknownCapture id name => aboutRule id
      ("summary_template references capture '".toList ++ name ++
        "' that is not in `captures` list".toList)
  | unbalancedTemplate id offset => aboutRule id
      ("has unbalanced template placeholder near offset ".toList ++ Text.ofNat offset)
  | tooManyTags id => aboutRule id
      ("carries more than ".toList ++ Text.ofNat MAX_TAGS ++ " tags".toList)
  | invalidTag id tag => aboutRule id ("tag '".toList ++ tag ++ "' is empty or exceeds ".toList ++
      Text.ofNat MAX_TAG_BYTES ++ " bytes or is not lowercase".toList)
  | tooManyExamples id => aboutRule id
      ("carries more than ".toList ++ Text.ofNat MAX_EXAMPLES ++ " examples".toList)
  | contextHintTooLarge id before after => aboutRule id ("context_hint exceeds the ".toList ++
      Text.ofNat MAX_CONTEXT_LINES ++ "-line cap (before=".toList ++ Text.ofNat before ++
      ", after=".toList ++ Text.ofNat after ++ ")".toList)
  | reservedKindNotDraft id kind status => aboutRule id ("kind=".toList ++ kind.debug ++
      (" is reserved-not-implemented at MVP; status must remain Draft, got ".toList) ++ status.debug)

inductive RenderError where
  | missingCapture (name : Text)
  | unbalanced (offset : Nat)
  deriving DecidableEq, Repr

/-! ## Patterns -/

def LOOKAROUNDS : List Text := ["(?=".toList, "(?!".toList, "(?<=".toList, "(?<!".toList]

def findBackreference : Text → Option Char
  | '\\' :: n :: rest =>
    if n.isDigit ∧ n ≠ '0' then some n else findBackreference rest
  | _ :: rest => findBackreference rest
  | [] => none

def checkForbiddenRegexConstructs (id pat : Text) : Except RuleError Unit :=
  match LOOKAROUNDS.find? fun la => decide (la <:+: pat) with
  | some la => .error (.forbiddenPatternFeature id "lookaround".toList
      ("pattern contains '".toList ++ la ++ "'".toList))
  | none =>
    match findBackreference pat with
    | some n => .error (.forbiddenPatternFeature id "backreference".toList
        ("pattern contains '\\".toList ++ [n] ++ "'".toList))
    | none => .ok ()

/-! ## Summary templates -/

abbrev Placeholder := Option (Nat × Text)

def validateTemplateFrom (id : Text) (captures : List Text) :
    Nat → Placeholder → Text → Except RuleError Unit
  | _, none, [] => .ok ()
  | _, some (start, _), [] => .error (.unbalancedTemplate id start)
  | i, none, '$' :: '{' :: rest =>
    validateTemplateFrom id captures (i + 2) (some (i, [])) rest
  | i, none, c :: rest => validateTemplateFrom id captures (i + c.utf8Size) none rest
  | i, some (start, name), c :: rest =>
    if c = '}' then
      if isReservedMatchKey name ∨ name ∈ captures then
        validateTemplateFrom id captures (i + 1) none rest
      else .error (.summaryTemplateUnknownCapture id name)
    else validateTemplateFrom id captures (i + c.utf8Size) (some (start, name ++ [c])) rest

def validateTemplateAgainstCaptures (id template : Text) (captures : List Text) :
    Except RuleError Unit :=
  validateTemplateFrom id captures 0 none template

def Captures.get? (captures : Captures) (name : Text) : Option Text :=
  (captures.find? fun entry => decide (entry.1 = name)).map Prod.snd

def renderTemplateFrom (captures : Captures) :
    Nat → Placeholder → Text → Text → Except RenderError Text
  | _, none, [], out => .ok out
  | _, some (start, _), [], _ => .error (.unbalanced start)
  | i, none, '$' :: '{' :: rest, out =>
    renderTemplateFrom captures (i + 2) (some (i, [])) rest out
  | i, none, c :: rest, out =>
    renderTemplateFrom captures (i + c.utf8Size) none rest (out ++ [c])
  | i, some (start, name), c :: rest, out =>
    if c = '}' then
      match captures.get? name with
      | some v => renderTemplateFrom captures (i + 1) none rest (out ++ v)
      | none => .error (.missingCapture name)
    else renderTemplateFrom captures (i + c.utf8Size) (some (start, name ++ [c])) rest out

def renderTemplate (template : Text) (captures : Captures) : Except RenderError Text :=
  renderTemplateFrom captures 0 none template []

/-! ## Validation -/

def RuleDefinition.validateBody (x : Externals) (rule : RuleDefinition) : Except RuleError Unit :=
  match rule.kind with
  | .regex =>
    let pat := rule.pattern.getD []
    if pat = [] then .error (.missingPattern rule.id rule.kind)
    else if MAX_PATTERN_BYTES < pat.len then .error (.patternTooLong rule.id)
    else do
      checkForbiddenRegexConstructs rule.id pat
      match x.compileBoundedRegex pat with
      | .ok _ => .ok ()
      | .error reason => .error (.patternCompileFailed rule.id reason)
  | .keyword =>
    let kws := rule.keywords.getD []
    if kws = [] ∨ [] ∈ kws then .error (.missingKeywords rule.id rule.kind) else .ok ()
  | _ => .ok ()

def RuleDefinition.validateTags (x : Externals) (id : Text) : List Text → Except RuleError Unit
  | [] => .ok ()
  | tag :: tags =>
    if tag = [] ∨ MAX_TAG_BYTES < tag.len ∨ tag ≠ x.toLowercase tag then
      .error (.invalidTag id tag)
    else validateTags x id tags

def failWhen (bad : Bool) (e : RuleError) : Except RuleError Unit := if bad then .error e else .ok ()

def RuleDefinition.validate (x : Externals) (rule : RuleDefinition) : Except RuleError Unit := do
  failWhen rule.id.isEmpty .emptyRuleId
  failWhen (MAX_RULE_ID_BYTES < rule.id.len) (.ruleIdTooLong rule.id)
  failWhen (rule.version == 0) (.invalidVersion rule.version)
  failWhen rule.eventKind.isEmpty (.emptyEventKind rule.id)
  rule.validateBody x
  failWhen (!rule.kind.isMvpLive && rule.status != .draft)
    (.reservedKindNotDraft rule.id rule.kind rule.status)
  failWhen rule.summaryTemplate.isEmpty (.emptySummaryTemplate rule.id)
  failWhen (MAX_TEMPLATE_BYTES < rule.summaryTemplate.len) (.summaryTemplateTooLong rule.id)
  validateTemplateAgainstCaptures rule.id rule.summaryTemplate rule.captures
  failWhen (MAX_TAGS < rule.tags.length) (.tooManyTags rule.id)
  RuleDefinition.validateTags x rule.id rule.tags
  failWhen (MAX_EXAMPLES < rule.examples.length) (.tooManyExamples rule.id)
  failWhen (MAX_CONTEXT_LINES < rule.contextHint.beforeLines ||
      MAX_CONTEXT_LINES < rule.contextHint.afterLines)
    (.contextHintTooLarge rule.id rule.contextHint.beforeLines rule.contextHint.afterLines)

def RuleDefinition.renderSummary (rule : RuleDefinition) (captures : Captures) :
    Except RenderError Text :=
  renderTemplate rule.summaryTemplate captures

theorem RuleDefinition.validate_keyword {x : Externals} {rule : RuleDefinition}
    (h : rule.validate x = .ok ()) (hkind : rule.kind = .keyword) :
    ∃ kws, rule.keywords = some kws ∧ kws ≠ [] ∧ ∀ kw ∈ kws, kw ≠ [] := by
  unfold RuleDefinition.validate at h
  simp only [bind_eq_ok] at h
  obtain ⟨_, -, _, -, _, -, _, -, _, hbody, -⟩ := h
  unfold RuleDefinition.validateBody at hbody
  rw [hkind] at hbody
  dsimp only at hbody
  split_ifs at hbody with hbad
  push Not at hbad
  rcases hk : rule.keywords with _ | kws
  · rw [hk] at hbad
    exact absurd rfl hbad.1
  · rw [hk] at hbad
    exact ⟨kws, rfl, hbad.1, fun kw hkw hnil => hbad.2 (hnil ▸ hkw)⟩

end TerminalCommander
