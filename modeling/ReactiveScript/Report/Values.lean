import ReactiveScript.Learner
import ReactiveScript.Report.Basic
import ReactiveScript.Value.Order

/-!
# Reports of values and predictions

The questions that a value answers as it is, and what was learnt of the types of a node. A share of
zero is not told.
-/

namespace ReactiveScript

open Report

/-- Everything that can be asked of one value without forcing it. -/
def Value.report (v : Value) : Report :=
  record [
    ("value", value v),
    ("type", tagName v.typeTag?),
    ("type_name", text v.typeName),
    ("str", text v.display),
    ("json", text v.toJson.text),
    ("true", truth v.isTrue),
    ("false", truth v.isFalse),
    ("void", truth v.isVoid),
    ("error", truth v.isError),
    ("node", truth v.isNode),
    ("number", truth v.isNumber),
    ("pair", truth v.isPair),
    ("infinite", truth v.isInfinite),
    ("zero", truth v.isZero),
    ("contains_node", truth v.containsNode),
    ("as_int", ofOption (fun n => value (.int n)) v.asInt?),
    ("as_f64", ofOption (fun d => value (.decimal d)) v.asDecimal?),
    ("as_bool", ofOption truth v.asBool?),
    ("as_str", ofOption text v.asText?),
    ("as_list_len", ofOption (fun items => count items.length) v.asList?),
    ("as_map_len", ofOption (fun entries => count entries.length) v.asMap?),
    ("as_node", ofOption (fun n => text n.operation) v.asNode?),
    ("as_resource", ofOption (fun r => text r.name) v.asResource?),
    ("as_error", ofOption (fun e => text e.kind.code) v.asError?),
    ("meta", ofOption info v.metadata?)]

/-- The types that were observed, with the shares of those that were observed at all. -/
def TypePrediction.report (p : TypePrediction) : Report :=
  record [
    ("total", count p.total),
    ("likely", tagName p.mostLikely?),
    ("probability", record ((TypeTag.all.filter fun t => p.hits t != 0).map fun t =>
      (t.name, value (.decimal (p.probability t)))))]

def TypeWarning.report (w : TypeWarning) : Report :=
  record [
    ("expected", Report.text w.expected.name),
    ("probability", value (.decimal w.probability)),
    ("likely", tagName w.likely),
    ("str", Report.text w.text)]

end ReactiveScript
