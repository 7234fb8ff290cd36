import TerminalCommander.Core.Rule

/-!
# Universal extractors

The rules a command without any rule of its own gets when the operator has enabled them
(`sifters/src/universal.rs`).
-/

namespace TerminalCommander

def regexRule (id eventKind : Text) (stream : SourceStream) (pattern : Text) (captures : List Text)
    (summaryTemplate description : Text) : RuleDefinition where
  id := id
  version := 1
  kind := .regex
  status := .active
  severity := .low
  eventKind := eventKind
  stream := some stream
  description := some description
  pattern := some pattern
  keywords := none
  captures := captures
  summaryTemplate := summaryTemplate
  tags := ["universal".toList]
  rateLimitPerMin := some 20
  redact := []
  contextHint := ⟨0, 1⟩
  examples := []

def universalExtractorRules : List RuleDefinition :=
  [regexRule "universal.error".toList "universal_error".toList .stderr
      "^(?i:error)[: ](?P<message>.+)$".toList ["message".toList]
      "error: $\x7bmessage\x7d".toList
      "Baseline stderr error line (universal extractor).".toList,
    regexRule "universal.warning".toList "universal_warning".toList .stderr
      "^(?i:warning)[: ](?P<message>.+)$".toList ["message".toList]
      "warning: $\x7bmessage\x7d".toList
      "Baseline stderr warning line (universal extractor).".toList,
    regexRule "universal.exit".toList "universal_exit".toList .stderr
      "(?i:exited with code|exit status|process exited) (?P<code>[0-9]+)".toList ["code".toList]
      "exited with code $\x7bcode\x7d".toList
      "Baseline exit-summary line (universal extractor).".toList,
    regexRule "universal.progress".toList "universal_progress".toList .stdout
      "^\\s*(?P<pct>[0-9]\x7b1,3\x7d)%\\s*$".toList ["pct".toList]
      "progress $\x7bpct\x7d%".toList
      "Baseline progress tick (universal extractor).".toList]

end TerminalCommander
