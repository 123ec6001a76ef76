import SqlAnalysis.SqlType.Basic

/-!
Which values may be compared, stored and converted, by their types alone.
-/

namespace SqlAnalysis.SqlType

def canComparePlain (a b : SqlType) : Bool :=
  if a.isNumeric then b.isNumeric
  else if a.isChar then b.isChar && a.charset == b.charset
  else if a.isBinary then b.isBinary
  else a.name == b.name

mutual
def canCompare : SqlType → SqlType → Bool
  | .unknown, _ => false
  | _, .unknown => false
  | .null, _ => true
  | _, .null => true
  | .row fs _, b =>
    b.isAny || match b with
      | .row gs _ => canCompareFields fs gs
      | _ => false
  | .multiset e _, b =>
    b.isAny || match b with
      | .multiset f _ => canCompare e f
      | _ => false
  | a, b => a.isAny || b.isAny || canComparePlain a b

def canCompareFields : List Field → List Field → Bool
  | [], [] => true
  | (_, a) :: fs, (_, b) :: gs => canCompare a b && canCompareFields fs gs
  | _, _ => false
end

def canAssignPlain (target source : SqlType) : Bool :=
  if target.isNumeric then source.isNumeric
  else if target.isChar then source.isChar
  else if target.isBinary then source.isBinary
  else if target.isNamed .timestamp then source.isNamed .timestamp || source.isNamed .date
  else target.name == source.name

mutual
def canAssign : SqlType → SqlType → Bool
  | .unknown, _ => false
  | _, .unknown => false
  | _, .null => true
  | .row fs _, source =>
    source.isAny || match source with
      | .row gs _ => canAssignFields fs gs
      | _ => false
  | .multiset e _, source =>
    source.isAny || match source with
      | .multiset f _ => canAssign e f
      | _ => false
  | target, source => target.isAny || source.isAny || canAssignPlain target source

def canAssignFields : List Field → List Field → Bool
  | [], [] => true
  | (_, a) :: fs, (_, b) :: gs => canAssign a b && canAssignFields fs gs
  | _, _ => false
end

def isWritten (t : SqlType) : Bool := t.isNumeric || t.isDatetime || t.isInterval || t.isBoolean

def canCast (target source : SqlType) : Bool :=
  canAssign target source ||
    (!target.isUnknown && !source.isUnknown &&
      (if target.isChar then source.isWritten
      else if source.isChar then target.isWritten
      else (target.isDatetime && source.isDatetime) || (target.isNumeric && source.isInterval) ||
        (target.isInterval && source.isExactNumeric)))

def sameCharset (a b : SqlType) : Bool := a.charset == b.charset

def mergeCollations (a b : SqlType) : Except MergeError Collation :=
  Collation.merge a.collation b.collation

end SqlAnalysis.SqlType
