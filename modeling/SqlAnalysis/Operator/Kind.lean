/-!
Kinds of operators. An analysis decides by the kind of an operator and never by its name.
-/

namespace SqlAnalysis

inductive Kind where
  | other | select | join | orderBy | union | except | intersect | values | explicitTable
  | insert | delete | update
  | naming | descending | over | window | preceding | following | row | caseOf | cast | dot | unnest
  | lateral | multisetValue | multisetQuery | multisetSetOp | scalarQuery
  | equals | notEquals | greaterThan | greaterThanOrEqual | lessThan | lessThanOrEqual
    | isDistinctFrom
  | isNotDistinctFrom | conjunction | disjunction | negation | isNull | isNotNull
    | isTrue | isNotTrue
  | isFalse | isNotFalse | isUnknown | isNotUnknown | isIn | isNotIn | between | notBetween | like
  | notLike | similar | notSimilar | existsRows | overlaps
  | plus | minus | times | divide | negate | affirm | concat
  | function | coalesce | nullif | extract | trim | substring | position
  | sum | count | min | max | avg | lastValue
  | rank | denseRank | percentRank | cumeDist | rowNumber
deriving Repr, DecidableEq, Inhabited

namespace Kind

def all : List Kind := (List.range (rowNumber.ctorIdx + 1)).map ofNat

def toText : Kind → String
  | .other => "OTHER"
  | .select => "SELECT"
  | .join => "JOIN"
  | .orderBy => "ORDER_BY"
  | .union => "UNION"
  | .except => "EXCEPT"
  | .intersect => "INTERSECT"
  | .values => "VALUES"
  | .explicitTable => "EXPLICIT_TABLE"
  | .insert => "INSERT"
  | .delete => "DELETE"
  | .update => "UPDATE"
  | .naming => "AS"
  | .descending => "DESCENDING"
  | .over => "OVER"
  | .window => "WINDOW"
  | .preceding => "PRECEDING"
  | .following => "FOLLOWING"
  | .row => "ROW"
  | .caseOf => "CASE"
  | .cast => "CAST"
  | .dot => "DOT"
  | .unnest => "UNNEST"
  | .lateral => "LATERAL"
  | .multisetValue => "MULTISET_VALUE"
  | .multisetQuery => "MULTISET_QUERY"
  | .multisetSetOp => "MULTISET_SET_OP"
  | .scalarQuery => "SCALAR_QUERY"
  | .equals => "EQUALS"
  | .notEquals => "NOT_EQUALS"
  | .greaterThan => "GREATER_THAN"
  | .greaterThanOrEqual => "GREATER_THAN_OR_EQUAL"
  | .lessThan => "LESS_THAN"
  | .lessThanOrEqual => "LESS_THAN_OR_EQUAL"
  | .isDistinctFrom => "IS_DISTINCT_FROM"
  | .isNotDistinctFrom => "IS_NOT_DISTINCT_FROM"
  | .conjunction => "AND"
  | .disjunction => "OR"
  | .negation => "NOT"
  | .isNull => "IS_NULL"
  | .isNotNull => "IS_NOT_NULL"
  | .isTrue => "IS_TRUE"
  | .isNotTrue => "IS_NOT_TRUE"
  | .isFalse => "IS_FALSE"
  | .isNotFalse => "IS_NOT_FALSE"
  | .isUnknown => "IS_UNKNOWN"
  | .isNotUnknown => "IS_NOT_UNKNOWN"
  | .isIn => "IN"
  | .isNotIn => "NOT_IN"
  | .between => "BETWEEN"
  | .notBetween => "NOT_BETWEEN"
  | .like => "LIKE"
  | .notLike => "NOT_LIKE"
  | .similar => "SIMILAR"
  | .notSimilar => "NOT_SIMILAR"
  | .existsRows => "EXISTS"
  | .overlaps => "OVERLAPS"
  | .plus => "PLUS"
  | .minus => "MINUS"
  | .times => "TIMES"
  | .divide => "DIVIDE"
  | .negate => "MINUS_PREFIX"
  | .affirm => "PLUS_PREFIX"
  | .concat => "CONCAT"
  | .function => "FUNCTION"
  | .coalesce => "COALESCE"
  | .nullif => "NULLIF"
  | .extract => "EXTRACT"
  | .trim => "TRIM"
  | .substring => "SUBSTRING"
  | .position => "POSITION"
  | .sum => "SUM"
  | .count => "COUNT"
  | .min => "MIN"
  | .max => "MAX"
  | .avg => "AVG"
  | .lastValue => "LAST_VALUE"
  | .rank => "RANK"
  | .denseRank => "DENSE_RANK"
  | .percentRank => "PERCENT_RANK"
  | .cumeDist => "CUME_DIST"
  | .rowNumber => "ROW_NUMBER"

def ofText? (s : String) : Option Kind := all.find? (fun k => k.toText == s)

def isQuery : Kind → Bool
  | .select | .orderBy | .union | .except | .intersect | .values | .explicitTable => true
  | _ => false

def isUpdate : Kind → Bool
  | .insert | .delete | .update => true
  | _ => false

def isStatement (k : Kind) : Bool := k.isQuery || k.isUpdate

def isSetOp : Kind → Bool
  | .union | .except | .intersect => true
  | _ => false

/-- Kinds whose character operands need a common collation. -/
def isComparison : Kind → Bool
  | .equals | .notEquals | .greaterThan | .greaterThanOrEqual | .lessThan | .lessThanOrEqual
  | .isDistinctFrom | .isNotDistinctFrom | .isIn | .isNotIn | .between | .notBetween
  | .like | .notLike | .similar | .notSimilar => true
  | _ => false

def isRanking : Kind → Bool
  | .rank | .denseRank | .percentRank | .cumeDist | .rowNumber => true
  | _ => false

def isAggregate : Kind → Bool
  | .sum | .count | .min | .max | .avg | .lastValue => true
  | k => k.isRanking

end Kind

inductive CallForm where
  | function | binary | prefixed | postfixed | special
  /-- A function that is called without parentheses, such as `CURRENT_DATE`. -/
  | functionId
  | internal
deriving Repr, DecidableEq, Inhabited

namespace CallForm

def all : List CallForm :=
  [.function, .binary, .prefixed, .postfixed, .special, .functionId, .internal]

def toText : CallForm → String
  | .function => "FUNCTION"
  | .binary => "BINARY"
  | .prefixed => "PREFIX"
  | .postfixed => "POSTFIX"
  | .special => "SPECIAL"
  | .functionId => "FUNCTION_ID"
  | .internal => "INTERNAL"

def ofText? (s : String) : Option CallForm := all.find? (fun f => f.toText == s)

def isFunction : CallForm → Bool
  | .function | .functionId => true
  | _ => false

end CallForm

end SqlAnalysis
