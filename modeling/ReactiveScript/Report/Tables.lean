import ReactiveScript.Operator
import ReactiveScript.Report.Basic
import ReactiveScript.Settings
import ReactiveScript.Source.Fingerprint

/-!
# Reports of fixed tables, settings and places in a source

The rows of the tables of error kinds, operators and type tags, the settings of a runtime, and where
a segment lies in its source.
-/

namespace ReactiveScript

open Report

def ErrorKind.report (k : ErrorKind) : Report :=
  record [
    ("name", Report.text k.name),
    ("code", Report.text k.code),
    ("fatal", truth k.isFatal),
    ("index", count (ErrorKind.all.idxOf k))]

def Operator.report (op : Operator) : Report :=
  record [
    ("name", Report.text op.name),
    ("symbol", Report.text op.symbol),
    ("kind", Report.text op.kind.name),
    ("arity", count op.kind.arity),
    ("reactive", truth op.reactive),
    ("pure", truth op.isPure),
    ("priority", count op.priority),
    ("str", Report.text op.text),
    ("index", count op.rank)]

def TypeTag.report (t : TypeTag) : Report :=
  record [
    ("name", Report.text t.name),
    ("cast_target", truth t.isCastTarget),
    ("accepts", texts ((TypeTag.all.filter t.accepts).map TypeTag.name)),
    ("index", count t.rank)]

/-- What is told of settings with the names that are reserved beside them. The last part tells which
of some names are reserved. -/
def Settings.report (s : Settings) (reserved names : List String) : Report :=
  record [
    ("mode", Report.text s.mode.name),
    ("max_recursion_depth", count s.maxRecursionDepth),
    ("assignment_fix_depth", count s.assignmentFixDepth),
    ("type_warning_threshold", value (.decimal s.typeWarningThreshold)),
    ("parallel", truth s.parallel),
    ("fail_fast", truth s.failFast),
    ("poll_ms", count s.pollInterval),
    ("timeout_ms", count s.blockingTimeout),
    ("is_default", truth (decide (s = Settings.default))),
    ("span_dummy", Report.text Span.none.text),
    ("reserved", list (names.map fun n => truth (reserved.contains n)))]

def Location.report (l : Location) : Report :=
  record [
    ("file", ofOption Report.text l.file),
    ("line", count l.line),
    ("column", count l.column),
    ("str", Report.text l.text)]

/-- What is told of a segment; the source may be known even if the place in it is not. -/
def Segment.report (s : Segment) (source : Option SourceText) : Report :=
  record [
    ("known", truth s.isKnown),
    ("file", ofOption Report.text s.file),
    ("segment", Report.text s.text),
    ("debug", Report.text s.describe),
    ("span", Report.text s.span.text),
    ("hash", ofOption (fun t => Report.text t.shortHash) source),
    ("locate", ofOption Location.report s.location?),
    ("message", Report.text s.message),
    ("short", Report.text s.shortMessage)]

end ReactiveScript
