import SqlAnalysis.Operator.Basic

/-!
The standard operators and functions.
-/

namespace SqlAnalysis

namespace OperandCheck

def booleans (n : Nat) : OperandCheck := [.families (List.replicate n .boolean)]

def numbers (n : Nat) : OperandCheck := [.families (List.replicate n .numeric)]

def character : OperandCheck := [.families [.character]]

def anything (n : Nat) : OperandCheck := [.families (List.replicate n .any)]

def numberOrInterval : OperandCheck := [.families [.numeric], .families [.interval]]

def plus : OperandCheck := [
  .families [.numeric, .numeric],
  .sameInterval,
  .families [.datetime, .interval],
  .families [.interval, .datetime]]

def minus : OperandCheck := [
  .families [.numeric, .numeric],
  .sameInterval,
  .families [.datetime, .interval]]

def times : OperandCheck := [
  .families [.numeric, .numeric],
  .families [.interval, .numeric],
  .families [.numeric, .interval]]

def divide : OperandCheck := [
  .families [.numeric, .numeric],
  .families [.interval, .numeric]]

def between : OperandCheck :=
  [Family.numeric, .character, .binary, .datetime, .interval].map fun f => .families [f, f, f]

def multisets : OperandCheck := [.families [.multiset, .multiset]]

end OperandCheck

namespace ReturnRule

def named (n : ScalarName) : ReturnRule := { base := .named n }

def nullable (n : ScalarName) : ReturnRule := { base := .named n, adjustments := [.nullableIfAny] }

def firstArg : ReturnRule := { base := .firstArg }

def nullableFirstArg : ReturnRule := { base := .firstArg, adjustments := [.nullableIfAny] }

def leastRestrictive : ReturnRule := { base := .leastRestrictive }

def nullableLeastRestrictive : ReturnRule :=
  { base := .leastRestrictive, adjustments := [.nullableIfAny] }

def nullableProduct : ReturnRule := { base := .product, adjustments := [.nullableIfAny] }

def nullableQuotient : ReturnRule := { base := .quotient, adjustments := [.nullableIfAny] }

def nullableConcatenation : ReturnRule :=
  { base := .concatenation, adjustments := [.nullableIfAny, .varying] }

def varchar2000 : ReturnRule := { base := .varchar 2000 }

end ReturnRule

namespace Slots

def select : List String :=
  ["keywords", "list", "from", "where", "group", "having", "window", "order"]

def join : List String := ["left", "natural", "type", "right", "condition_type", "condition"]

def orderBy : List String := ["query", "order"]

def insert : List String := ["target", "source", "columns", "source_select"]

def delete : List String := ["target", "condition", "alias", "source_select"]

def update : List String := ["target", "columns", "sources", "condition", "alias", "source_select"]

def window : List String := ["name", "ref", "partition", "order", "rows", "lower", "upper"]

def caseOf : List String := ["value", "when", "then", "else"]

end Slots

namespace Standard

def binary (name : String) (kind : Kind) (strength : Int) (returns : Option ReturnRule := none)
    (expects : Option OperandRule := none) (checks : Option OperandCheck := none) : Operator :=
  { name, kind, form := .binary, leftPrecedence := 2 * strength,
    rightPrecedence := 2 * strength + 1,
    arity := .exactly 2, returns, expects, checks }

def unary (form : CallForm) (name : String) (kind : Kind) (strength : Int)
    (returns : Option ReturnRule := none) (expects : Option OperandRule := none)
    (checks : Option OperandCheck := none) : Operator :=
  { name, kind, form, leftPrecedence := 2 * strength, rightPrecedence := 2 * strength,
    arity := .exactly 1, returns, expects, checks }

def function (name : String) (kind : Kind) (arity : Arity) (returns : ReturnRule)
    (checks : Option OperandCheck := none) (expects : Option OperandRule := none) : Operator :=
  { name, kind, form := .function, arity, returns, expects, checks }

variable (name : String)

def value (returns : ReturnRule) : Operator :=
  { name, kind := .function, form := .functionId, arity := .exactly 0, returns }

def special (name : String) (kind : Kind) (strength : Int) (arity : Arity) : Operator :=
  { name, kind, form := .special, leftPrecedence := 2 * strength,
    rightPrecedence := 2 * strength, arity }

def slotted (kind : Kind) (strength : Int) (slots : List String) : Operator :=
  { special name kind strength (.exactly slots.length) with slots }

def monotonic (o : Operator) : Operator := { o with monotonic := true }

def comparison (kind : Kind) (ordered : Bool) (returns : ReturnRule) : Operator :=
  binary name kind 15 returns (some .firstKnown) (some [.comparable 2 ordered])

def test (kind : Kind) : Operator :=
  unary .postfixed name kind 15 (ReturnRule.named .boolean) (some .boolean)
    (OperandCheck.booleans 1)

def nullTest (kind : Kind) : Operator :=
  unary .postfixed name kind 15 (ReturnRule.named .boolean) (some (.varchar 1024))
    (OperandCheck.anything 1)

def between (name : String) (kind : Kind) : Operator :=
  { special name kind 15 (.exactly 3) with
    returns := ReturnRule.nullable .boolean, expects := some .firstKnown, checks :=
      OperandCheck.between }

def like (kind : Kind) : Operator :=
  { special name kind 15 (.between 2 3) with
    returns := ReturnRule.nullable .boolean, expects := some .firstKnown,
    checks := some [.sameString 2, .sameString 3] }

def multisetOp (strength : Int) : Operator :=
  binary name .multisetSetOp strength ReturnRule.nullableFirstArg (some .firstKnown)
    OperandCheck.multisets

def relational : List Operator := [
  slotted "SELECT" .select 0 Slots.select,
  slotted "JOIN" .join 8 Slots.join,
  slotted "ORDER BY" .orderBy 0 Slots.orderBy,
  binary "UNION" .union 7,
  binary "UNION ALL" .union 7,
  binary "EXCEPT" .except 7,
  binary "EXCEPT ALL" .except 7,
  binary "INTERSECT" .intersect 9,
  binary "INTERSECT ALL" .intersect 9,
  special "VALUES" .values 0 (.atLeast 1),
  unary .prefixed "TABLE" .explicitTable 1,
  slotted "INSERT" .insert 0 Slots.insert,
  slotted "DELETE" .delete 0 Slots.delete,
  slotted "UPDATE" .update 0 Slots.update,
  special "UNNEST" .unnest 20 (.exactly 1),
  unary .prefixed "LATERAL" .lateral 20]

def structural : List Operator := [
  binary "AS" .naming 10,
  unary .postfixed "DESC" .descending 10,
  binary "OVER" .over 10,
  slotted "WINDOW" .window 0 Slots.window,
  unary .postfixed "PRECEDING" .preceding 10,
  unary .postfixed "FOLLOWING" .following 10,
  { special "ROW" .row 0 (.atLeast 1) with expects := some .returnType },
  slotted "CASE" .caseOf 0 Slots.caseOf,
  special "CAST" .cast 0 (.exactly 2),
  binary "." .dot 40 none none (OperandCheck.anything 2),
  special "MULTISET" .multisetValue 0 (.atLeast 1),
  special "MULTISET QUERY" .multisetQuery 0 (.exactly 1),
  special "SCALAR QUERY" .scalarQuery 0 (.exactly 1),
  multisetOp "MULTISET UNION" 7,
  multisetOp "MULTISET INTERSECT" 9,
  multisetOp "MULTISET EXCEPT" 7]

def predicates : List Operator := [
  binary "AND" .conjunction 14 (ReturnRule.nullable .boolean) (some .boolean)
    (OperandCheck.booleans 2),
  binary "OR" .disjunction 13 (ReturnRule.nullable .boolean) (some .boolean)
    (OperandCheck.booleans 2),
  unary .prefixed "NOT" .negation 15 (ReturnRule.nullable .boolean) (some .boolean)
    (OperandCheck.booleans 1),
  comparison "=" .equals false (.nullable .boolean),
  comparison "<>" .notEquals false (.nullable .boolean),
  comparison ">" .greaterThan true (.nullable .boolean),
  comparison ">=" .greaterThanOrEqual true (.nullable .boolean),
  comparison "<" .lessThan true (.nullable .boolean),
  comparison "<=" .lessThanOrEqual true (.nullable .boolean),
  comparison "IS DISTINCT FROM" .isDistinctFrom false (.named .boolean),
  comparison "IS NOT DISTINCT FROM" .isNotDistinctFrom false (.named .boolean),
  nullTest "IS NULL" .isNull,
  nullTest "IS NOT NULL" .isNotNull,
  test "IS TRUE" .isTrue,
  test "IS NOT TRUE" .isNotTrue,
  test "IS FALSE" .isFalse,
  test "IS NOT FALSE" .isNotFalse,
  test "IS UNKNOWN" .isUnknown,
  test "IS NOT UNKNOWN" .isNotUnknown,
  binary "IN" .isIn 15 (ReturnRule.nullable .boolean) (some .firstKnown),
  binary "NOT IN" .isNotIn 15 (ReturnRule.nullable .boolean) (some .firstKnown),
  between "BETWEEN" .between,
  between "NOT BETWEEN" .notBetween,
  like "LIKE" .like,
  like "NOT LIKE" .notLike,
  like "SIMILAR TO" .similar,
  like "NOT SIMILAR TO" .notSimilar,
  unary .prefixed "EXISTS" .existsRows 20 (ReturnRule.named .boolean),
  binary "OVERLAPS" .overlaps 15 (ReturnRule.nullable .boolean) (some .firstKnown)
    (some [.families [.datetime, .any]])]

def arithmetic : List Operator := [
  monotonic (binary "+" .plus 20 ReturnRule.nullableLeastRestrictive (some .firstKnown)
    OperandCheck.plus),
  monotonic (binary "-" .minus 20 ReturnRule.nullableLeastRestrictive (some .firstKnown)
    OperandCheck.minus),
  monotonic (binary "*" .times 30 ReturnRule.nullableProduct (some .firstKnown) OperandCheck.times),
  binary "/" .divide 30 ReturnRule.nullableQuotient (some .firstKnown) OperandCheck.divide,
  monotonic (unary .prefixed "-" .negate 20 ReturnRule.firstArg (some .returnType)
    OperandCheck.numberOrInterval),
  monotonic (unary .prefixed "+" .affirm 20 ReturnRule.firstArg (some .returnType)
    OperandCheck.numberOrInterval),
  binary "||" .concat 30 ReturnRule.nullableConcatenation none (some [.sameString 2])]

def functions : List Operator := [
  function "CHAR_LENGTH" .function (.exactly 1) (.nullable .integer) OperandCheck.character,
  function "CHARACTER_LENGTH" .function (.exactly 1) (.nullable .integer) OperandCheck.character,
  function "UPPER" .function (.exactly 1) .nullableFirstArg OperandCheck.character,
  function "LOWER" .function (.exactly 1) .nullableFirstArg OperandCheck.character,
  function "INITCAP" .function (.exactly 1) .nullableFirstArg OperandCheck.character,
  function "POWER" .function (.exactly 2) (.nullable .double) (OperandCheck.numbers 2),
  function "MOD" .function (.exactly 2) .nullableLeastRestrictive
    (some [.families [.exactNumeric, .exactNumeric]]),
  function "LN" .function (.exactly 1) (.nullable .double) (OperandCheck.numbers 1),
  function "LOG" .function (.exactly 1) (.nullable .double) (OperandCheck.numbers 1),
  function "LOG" .function (.exactly 2) (.nullable .double) (OperandCheck.numbers 2),
  function "ABS" .function (.exactly 1) .firstArg OperandCheck.numberOrInterval,
  monotonic (function "FLOOR" .function (.exactly 1) .firstArg OperandCheck.numberOrInterval),
  monotonic (function "CEIL" .function (.exactly 1) .firstArg OperandCheck.numberOrInterval),
  function "COALESCE" .coalesce (.atLeast 1) .leastRestrictive none (some .firstKnown),
  function "NULLIF" .nullif (.exactly 2) { base := .firstArg, adjustments := [.forceNullable] }
    (some [.comparable 2 false]) (some .firstKnown),
  function "SUBSTRING" .substring (.between 2 3) .nullableFirstArg
    (some [.families [.character, .numeric, .numeric], .families [.binary, .numeric, .numeric]]),
  function "POSITION" .position (.exactly 2) (.nullable .integer) (some [.sameString 2]),
  function "TRIM" .trim (.exactly 3)
    { base := .thirdArg, adjustments := [.nullableIfAny, .varying] }
    (some [.families [.symbol, .character, .character]]),
  function "EXTRACT" .extract (.exactly 2) (.nullable .bigint)
    (some [.families [.symbol, .datetime], .families [.symbol, .interval]]),
  value "CURRENT_DATE" (.named .date),
  value "CURRENT_TIME" (.named .time),
  value "CURRENT_TIMESTAMP" (.named .timestamp),
  value "LOCALTIME" (.named .time),
  value "LOCALTIMESTAMP" (.named .timestamp),
  value "USER" .varchar2000,
  value "CURRENT_USER" .varchar2000,
  value "SESSION_USER" .varchar2000,
  value "SYSTEM_USER" .varchar2000,
  value "CURRENT_ROLE" .varchar2000,
  value "CURRENT_PATH" .varchar2000]

def aggregates : List Operator := [
  function "SUM" .sum (.exactly 1) .firstArg (OperandCheck.numbers 1),
  function "COUNT" .count (.between 0 1) (.named .bigint),
  function "MIN" .min (.exactly 1) .firstArg (some [.comparable 1 true]),
  function "MAX" .max (.exactly 1) .firstArg (some [.comparable 1 true]),
  function "AVG" .avg (.exactly 1) .firstArg (OperandCheck.numbers 1),
  function "LAST_VALUE" .lastValue (.exactly 1) .firstArg (OperandCheck.anything 1),
  function "RANK" .rank (.exactly 0) (.named .integer),
  function "DENSE_RANK" .denseRank (.exactly 0) (.named .integer),
  function "PERCENT_RANK" .percentRank (.exactly 0) (.named .double),
  function "CUME_DIST" .cumeDist (.exactly 0) (.named .double),
  function "ROW_NUMBER" .rowNumber (.exactly 0) (.named .bigint)]

end Standard

def Registry.standard : Registry where
  operators := Standard.relational ++ Standard.structural ++ Standard.predicates ++
    Standard.arithmetic ++ Standard.functions ++ Standard.aggregates

end SqlAnalysis
