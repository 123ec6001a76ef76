import SqlAnalysis.Catalog.Reader
import SqlAnalysis.Operator.ReturnRule
import SqlAnalysis.Source

/-!
What can be wrong with a statement. A cause has a code, which classes it, and a message; a
diagnostic is a cause at a place in the source, with similar names for a name that is not known and
the accepted calls for a call that is not accepted.
-/

namespace SqlAnalysis

inductive Code where
  | internal | unknownIdentifier | unknownField | ambiguousColumn | tableNotFound | unknownFunction
  | noMatchingOverload | operandTypeMismatch | arityMismatch | illegalNullLiteral
    | notAGroupExpression
  | aggregateIllegalInWhere | aggregateIllegalInGroupBy | windowedAggregateIllegal | nestedAggregate
  | whereOrHavingNotBoolean | conditionNotBoolean | joinConditionRequired | joinConditionDisallowed
  | naturalDisallowed | naturalDisallowsOnOrUsing | incompatibleCharset | incompatibleCollation
  | noCommonCollation | windowNotFound | duplicateWindowName | windowRefIllegal | overRequired
  | notAnAggregate | frameBoundNotConstant | wrongNumericKind | typeFamilyMismatch
    | negativeFrameSize
  | rankRequiresOrderBy | rankDisallowsFrame | currentRowPreceding | followingBeforePreceding
  | badLowerBound | badUpperBound | compoundOrderByRange | rangeRequiresOrderBy | validationCycle
  | columnCountMismatch | typeNotAssignable | duplicateTargetColumn | incompatibleValueType
  | columnTypeMismatch | ordinalOutOfRange | unknownDatatype | castIllegal | invalidEscape
deriving Repr, DecidableEq, Inhabited

def Code.toText : Code → String
  | .internal => "Internal"
  | .unknownIdentifier => "UnknownIdentifier"
  | .unknownField => "UnknownField"
  | .ambiguousColumn => "AmbiguousColumn"
  | .tableNotFound => "TableNotFound"
  | .unknownFunction => "UnknownFunction"
  | .noMatchingOverload => "NoMatchingOverload"
  | .operandTypeMismatch => "OperandTypeMismatch"
  | .arityMismatch => "ArityMismatch"
  | .illegalNullLiteral => "IllegalNullLiteral"
  | .notAGroupExpression => "NotAGroupExpression"
  | .aggregateIllegalInWhere => "AggregateIllegalInWhere"
  | .aggregateIllegalInGroupBy => "AggregateIllegalInGroupBy"
  | .windowedAggregateIllegal => "WindowedAggregateIllegal"
  | .nestedAggregate => "NestedAggregate"
  | .whereOrHavingNotBoolean => "WhereOrHavingNotBoolean"
  | .conditionNotBoolean => "ConditionNotBoolean"
  | .joinConditionRequired => "JoinConditionRequired"
  | .joinConditionDisallowed => "JoinConditionDisallowed"
  | .naturalDisallowed => "NaturalDisallowed"
  | .naturalDisallowsOnOrUsing => "NaturalDisallowsOnOrUsing"
  | .incompatibleCharset => "IncompatibleCharset"
  | .incompatibleCollation => "IncompatibleCollation"
  | .noCommonCollation => "NoCommonCollation"
  | .windowNotFound => "WindowNotFound"
  | .duplicateWindowName => "DuplicateWindowName"
  | .windowRefIllegal => "WindowRefIllegal"
  | .overRequired => "OverRequired"
  | .notAnAggregate => "NotAnAggregate"
  | .frameBoundNotConstant => "FrameBoundNotConstant"
  | .wrongNumericKind => "WrongNumericKind"
  | .typeFamilyMismatch => "TypeFamilyMismatch"
  | .negativeFrameSize => "NegativeFrameSize"
  | .rankRequiresOrderBy => "RankRequiresOrderBy"
  | .rankDisallowsFrame => "RankDisallowsFrame"
  | .currentRowPreceding => "CurrentRowPreceding"
  | .followingBeforePreceding => "FollowingBeforePreceding"
  | .badLowerBound => "BadLowerBound"
  | .badUpperBound => "BadUpperBound"
  | .compoundOrderByRange => "CompoundOrderByRange"
  | .rangeRequiresOrderBy => "RangeRequiresOrderBy"
  | .validationCycle => "ValidationCycle"
  | .columnCountMismatch => "ColumnCountMismatch"
  | .typeNotAssignable => "TypeNotAssignable"
  | .duplicateTargetColumn => "DuplicateTargetColumn"
  | .incompatibleValueType => "IncompatibleValueType"
  | .columnTypeMismatch => "ColumnTypeMismatch"
  | .ordinalOutOfRange => "OrdinalOutOfRange"
  | .unknownDatatype => "UnknownDatatype"
  | .castIllegal => "CastIllegal"
  | .invalidEscape => "InvalidEscape"

inductive Restricted where
  | filter | having | joining | grouping
deriving Repr, DecidableEq

def Restricted.toText : Restricted → String
  | .filter => "WHERE"
  | .having => "HAVING"
  | .joining => "ON"
  | .grouping => "GROUP BY"

inductive Cause where
  -- The shape of the statement.
  | notAQuery
  | notAQueryCall (op : String)
  | aliasNotAName | unsupportedSource
  | targetNotATable (op : String)
  | noSource (op : String)
  | absentExpression | fieldNotAName | columnNotAName | usingNotAName | notAWindow | unnamedWindow
  | caseBranches (whens thens : Nat)
  | multisetUnregistered | queryUnregistered | sourceUnregistered | joinInputUnregistered
  | statementUnregistered
  | targetUnregistered (op : String)
  | changeUnregistered
  | branchUnregistered (op : String)
  -- Names.
  | cycle
  | objectNotFound (name : String)
  | unknownIdentifier (name : String)
  | columnNotFound (name : String)
  | ambiguousColumn (name : String)
  | tableNotFound (name : String)
  | columnNotInTable (column table : String)
  | starWithoutSource
  | fieldOfNonRecord (field type : String)
  | unknownField (name : String)
  | unknownTarget (name : String)
  | unknownCharset (name : String)
  | unknownType (name : String)
  -- Types of expressions.
  | parameterUntyped | nullUntyped | incompatibleItems | incompatibleElements | onlyNullBranches
  | incompatibleBranches
  | incomparable (op : String)
  | notBoolean
  | castIllegal (source target : String)
  -- Calls.
  | overRequired | nestedAggregate
  | unknownFunction (signature : String)
  | arityMismatch (op expected : String)
  | operandsRefused (op actual : String) (forms : List String)
  | noOverload (signature : String)
  | charsets (op left right : String)
  | explicitCollations (left right : String)
  | noCommonCollation (left right : Collation)
  | invalidEscape (text : String)
  | noReturnRule (op : String)
  | returnFailed (e : ReturnError)
  | noReturnType (op : String) (operands : List String)
  -- Clauses of a query block.
  | notACondition (clause : Restricted)
  | aggregateIn (clause : Restricted)
  | windowedIn (clause : Restricted)
  | notGrouped (name : String)
  | ordinalOutOfRange
  -- Joins.
  | naturalCross | conditionOnCross | naturalWithCondition | conditionRequired
  | columnTypes (name : String)
  -- Windows.
  | notAnAggregate
  | windowNotFound (name : String)
  | windowCycle (name : String)
  | duplicateWindow | partitionOverBase | orderOverBase | framedBase
  | rankUnordered (op : String)
  | rankFramed (op : String)
  | compoundRange | rangeUnordered | lowerUnboundedFollowing | upperUnboundedPreceding
  | precedingAfterCurrentRow | nothingAfterFollowing | negativeFrame | boundNotConstant
  | rowsNotIntegral | rangeTypeMismatch | rangeProhibited
  -- Relations.
  | rowLengths | rowTypes
  | branchColumns (op : String)
  | branchTypes (column : Nat) (op : String)
  | notAMultiset (type : String)
  -- Changes to a table.
  | targetCount (op : String) (targets sources : Nat)
  | duplicateTarget (name : String)
  | notAssignable (target targetType source sourceType : String)
deriving Repr, DecidableEq

namespace Cause

def code : Cause → Code
  | .notAQuery | .notAQueryCall _ | .aliasNotAName | .unsupportedSource
    | .targetNotATable _ | .noSource _
  | .absentExpression | .fieldNotAName | .columnNotAName | .usingNotAName
    | .notAWindow | .unnamedWindow
  | .caseBranches _ _ | .multisetUnregistered | .queryUnregistered | .sourceUnregistered
  | .joinInputUnregistered | .statementUnregistered | .targetUnregistered _ | .changeUnregistered
  | .branchUnregistered _ | .noReturnRule _ | .returnFailed _ => .internal
  | .cycle | .windowCycle _ => .validationCycle
  | .objectNotFound _ | .tableNotFound _ => .tableNotFound
  | .unknownIdentifier _ | .columnNotFound _ | .starWithoutSource => .unknownIdentifier
  | .ambiguousColumn _ => .ambiguousColumn
  | .columnNotInTable _ _ | .fieldOfNonRecord _ _ | .unknownField _
    | .unknownTarget _ => .unknownField
  | .unknownCharset _ | .unknownType _ => .unknownDatatype
  | .parameterUntyped | .nullUntyped | .onlyNullBranches => .illegalNullLiteral
  | .incompatibleItems | .incompatibleElements | .incompatibleBranches
    | .rowTypes | .branchTypes _ _ =>
    .incompatibleValueType
  | .incomparable _ | .operandsRefused _ _ _ | .noReturnType _ _ | .notAMultiset _ =>
    .operandTypeMismatch
  | .notBoolean | .notACondition .joining => .conditionNotBoolean
  | .castIllegal _ _ => .castIllegal
  | .overRequired => .overRequired
  | .nestedAggregate => .nestedAggregate
  | .unknownFunction _ => .unknownFunction
  | .arityMismatch _ _ => .arityMismatch
  | .noOverload _ => .noMatchingOverload
  | .charsets _ _ _ => .incompatibleCharset
  | .explicitCollations _ _ => .incompatibleCollation
  | .noCommonCollation _ _ => .noCommonCollation
  | .invalidEscape _ => .invalidEscape
  | .notACondition _ => .whereOrHavingNotBoolean
  | .aggregateIn .grouping => .aggregateIllegalInGroupBy
  | .aggregateIn _ => .aggregateIllegalInWhere
  | .windowedIn _ => .windowedAggregateIllegal
  | .notGrouped _ => .notAGroupExpression
  | .ordinalOutOfRange => .ordinalOutOfRange
  | .naturalCross => .naturalDisallowed
  | .conditionOnCross => .joinConditionDisallowed
  | .naturalWithCondition => .naturalDisallowsOnOrUsing
  | .conditionRequired => .joinConditionRequired
  | .columnTypes _ => .columnTypeMismatch
  | .notAnAggregate => .notAnAggregate
  | .windowNotFound _ => .windowNotFound
  | .duplicateWindow => .duplicateWindowName
  | .partitionOverBase | .orderOverBase | .framedBase => .windowRefIllegal
  | .rankUnordered _ => .rankRequiresOrderBy
  | .rankFramed _ => .rankDisallowsFrame
  | .compoundRange => .compoundOrderByRange
  | .rangeUnordered => .rangeRequiresOrderBy
  | .lowerUnboundedFollowing => .badLowerBound
  | .upperUnboundedPreceding => .badUpperBound
  | .precedingAfterCurrentRow => .currentRowPreceding
  | .nothingAfterFollowing => .followingBeforePreceding
  | .negativeFrame => .negativeFrameSize
  | .boundNotConstant => .frameBoundNotConstant
  | .rowsNotIntegral => .wrongNumericKind
  | .rangeTypeMismatch | .rangeProhibited => .typeFamilyMismatch
  | .rowLengths | .branchColumns _ | .targetCount _ _ _ => .columnCountMismatch
  | .duplicateTarget _ => .duplicateTargetColumn
  | .notAssignable _ _ _ _ => .typeNotAssignable

def message : Cause → String
  | .notAQuery => "not a query"
  | .notAQueryCall op => op ++ " is not a query"
  | .aliasNotAName => "alias must be an identifier"
  | .unsupportedSource => "unsupported FROM item"
  | .targetNotATable op => op ++ " target must be a table name"
  | .noSource op => op ++ " has no source"
  | .absentExpression => "cannot derive the type of node 0"
  | .fieldNotAName => "field name must be an identifier"
  | .columnNotAName => "target column must be an identifier"
  | .usingNotAName => "USING column must be a simple identifier"
  | .notAWindow => "OVER requires a window specification"
  | .unnamedWindow => "window in WINDOW clause has no name"
  | .caseBranches whens thens =>
    "CASE has " ++ Number.natText whens ++ " WHEN and " ++ Number.natText thens ++ " THEN branches"
  | .multisetUnregistered => "multiset query is not registered"
  | .queryUnregistered => "query is not registered"
  | .sourceUnregistered => "FROM item is not registered"
  | .joinInputUnregistered => "join input is not registered"
  | .statementUnregistered => "statement is not registered"
  | .targetUnregistered op => op ++ " target is not registered"
  | .changeUnregistered => "DML source is not registered"
  | .branchUnregistered op => op ++ " branch is not registered"
  | .cycle => "Cycle detected during type-checking"
  | .objectNotFound name => "Object '" ++ name ++ "' not found"
  | .unknownIdentifier name => "Unknown identifier '" ++ name ++ "'"
  | .columnNotFound name => "Column '" ++ name ++ "' not found in any table"
  | .ambiguousColumn name => "Column '" ++ name ++ "' is ambiguous"
  | .tableNotFound name => "Table '" ++ name ++ "' not found"
  | .columnNotInTable column table =>
    "Column '" ++ column ++ "' not found in table '" ++ table ++ "'"
  | .starWithoutSource => "SELECT * requires a FROM clause"
  | .fieldOfNonRecord field type =>
    "Cannot access field '" ++ field ++ "' of non-record type " ++ type
  | .unknownField name => "Unknown field '" ++ name ++ "'"
  | .unknownTarget name => "Unknown target column '" ++ name ++ "'"
  | .unknownCharset name => "Unknown character set '" ++ name ++ "'"
  | .unknownType name => "Unknown datatype name '" ++ name ++ "'"
  | .parameterUntyped => "Illegal use of dynamic parameter"
  | .nullUntyped => "Illegal use of 'NULL'"
  | .incompatibleItems => "Values in expression list must have compatible types"
  | .incompatibleElements => "Parameters must be of the same type"
  | .onlyNullBranches => "ELSE clause or at least one THEN clause must be non-NULL"
  | .incompatibleBranches => "Illegal mixing of types in CASE or COALESCE statement"
  | .incomparable op => "Values passed to " ++ op ++ " operator must have compatible types"
  | .notBoolean => "Expected a boolean type"
  | .castIllegal source target =>
    "Cast function cannot convert value of type " ++ source ++ " to type " ++ target
  | .overRequired => "OVER clause is necessary for window functions"
  | .nestedAggregate => "Aggregate expressions cannot be nested"
  | .unknownFunction signature => "No match found for function signature " ++ signature
  | .arityMismatch op expected =>
    "Invalid number of arguments to function '" ++ op ++ "'. Was expecting " ++
      expected ++ " arguments"
  | .operandsRefused op actual forms =>
    "Cannot apply '" ++ op ++ "' to arguments of type '" ++ actual ++ "'. Supported form(s): " ++
      Text.join ", " forms
  | .noOverload signature => "No match found for function signature " ++ signature
  | .charsets op left right =>
    "Cannot apply operation '" ++ op ++ "' to strings with different charsets '" ++
      left ++ "' and '" ++ right ++ "'"
  | .explicitCollations left right =>
    "Two explicit different collations (" ++ left ++ ", " ++ right ++ ") are illegal"
  | .noCommonCollation left right =>
    "Invalid compare. Comparing (collation, coercibility): (" ++ left.name ++ ", " ++
      left.coercibility.toText ++ ") with (" ++ right.name ++ ", " ++ right.coercibility.toText ++
      ") is illegal"
  | .invalidEscape text => "Invalid escape character '" ++ text ++ "'"
  | .noReturnRule op => "operator " ++ op ++ " has no return type inference"
  | .returnFailed e => e.message
  | .noReturnType op operands =>
    "Cannot infer return type for " ++ op ++ "; operand types: " ++ Text.join ", " operands
  | .notACondition clause => clause.toText ++ " clause must be a condition"
  | .aggregateIn clause => "Aggregate expression is illegal in " ++ clause.toText ++ " clause"
  | .windowedIn clause => "Windowed aggregate expression is illegal in " ++
    clause.toText ++ " clause"
  | .notGrouped name => "Expression '" ++ name ++ "' is not being grouped"
  | .ordinalOutOfRange => "Ordinal out of range"
  | .naturalCross => "Cannot specify NATURAL keyword with CROSS JOIN"
  | .conditionOnCross =>
    "Cannot specify condition (NATURAL keyword, or ON or USING clause) following CROSS JOIN"
  | .naturalWithCondition => "Cannot specify NATURAL keyword with ON or USING clause"
  | .conditionRequired =>
    "INNER, LEFT, RIGHT or FULL join requires a condition (NATURAL keyword or ON or USING clause)"
  | .columnTypes name =>
    "Column '" ++ name ++ "' matched using NATURAL keyword or USING clause has incompatible types"
  | .notAnAggregate => "OVER must be applied to aggregate function"
  | .windowNotFound name => "Window '" ++ name ++ "' not found"
  | .windowCycle name => "Window '" ++ name ++ "' refers to itself"
  | .duplicateWindow => "Duplicate window names not allowed"
  | .partitionOverBase => "PARTITION BY not allowed with existing window reference"
  | .orderOverBase => "ORDER BY not allowed in both base and referenced windows"
  | .framedBase => "Referenced window cannot have framing declarations"
  | .rankUnordered op =>
    "Function '" ++ op ++ "' requires an ORDER BY clause in its window specification"
  | .rankFramed op => "ROWS or RANGE not allowed with function '" ++ op ++ "'"
  | .compoundRange => "RANGE clause cannot be used with compound ORDER BY clause"
  | .rangeUnordered => "Window specification must contain an ORDER BY clause"
  | .lowerUnboundedFollowing =>
    "UNBOUNDED FOLLOWING cannot be specified for the lower frame boundary"
  | .upperUnboundedPreceding =>
    "UNBOUNDED PRECEDING cannot be specified for the upper frame boundary"
  | .precedingAfterCurrentRow =>
    "Upper frame boundary cannot be PRECEDING when lower boundary is CURRENT ROW"
  | .nothingAfterFollowing =>
    "Upper frame boundary cannot be PRECEDING or CURRENT ROW when lower boundary is FOLLOWING"
  | .negativeFrame => "Window has negative size"
  | .boundNotConstant => "Window boundary must be constant"
  | .rowsNotIntegral => "ROWS value must be a non-negative integral constant"
  | .rangeTypeMismatch => "Data Type mismatch between ORDER BY and RANGE clause"
  | .rangeProhibited => "Data type of ORDER BY prohibits use of RANGE clause"
  | .rowLengths => "Values passed to VALUES operator must have the same number of columns"
  | .rowTypes => "Values passed to VALUES operator must have compatible types"
  | .branchColumns op => "Column count mismatch in " ++ op
  | .branchTypes column op => "Type mismatch in column " ++ Number.natText column ++ " of " ++ op
  | .notAMultiset type => "Cannot apply 'UNNEST' to arguments of type '" ++ type ++ "'"
  | .targetCount op targets sources =>
    "Number of " ++ op ++ " target columns (" ++ Number.natText targets ++
      ") does not equal number of source items (" ++ Number.natText sources ++ ")"
  | .duplicateTarget name => "Target column '" ++ name ++ "' is assigned more than once"
  | .notAssignable target targetType source sourceType =>
    "Cannot assign to target field '" ++ target ++ "' of type " ++ targetType ++
      " from source field '" ++ source ++ "' of type " ++ sourceType

end Cause

/-- A cause at a place in the source; a node that no source wrote has no place. -/
structure Diagnostic where
  cause : Cause
  span : Option Span := none
  signatures : List String := []
  suggestions : List String := []
deriving Repr, DecidableEq

namespace Diagnostic

def code (d : Diagnostic) : Code := d.cause.code

def message (d : Diagnostic) : String :=
  match d.suggestions with
  | [] => d.cause.message
  | names =>
    d.cause.message ++ " (did you mean " ++
      Text.join ", " (names.map fun s => "'" ++ s ++ "'") ++ "?)"

def located (d : Diagnostic) : Located :=
  match d.span with
  | none => { message := d.message }
  | some s => { message := d.message, pos := s.first, stop := s.last }

def render (source : Source) (d : Diagnostic) : String := d.located.render (some source)

end Diagnostic

inductive Halt where
  | refused (d : Diagnostic)
  | catalog (e : CatalogFailure)
  | faulted (f : Fault)
  | exhausted
deriving Repr, DecidableEq

def Halt.message : Halt → String
  | .refused d => d.message
  | .catalog e => e.message
  | .faulted f => f.message
  | .exhausted => "statement nests too deeply"

end SqlAnalysis
