/-!
A cache of answers that adapts to how it is asked. Answers used once and answers used more often are
kept apart, and the keys of both that had to go are remembered for a while. A key that comes back
shows which side was given too little room.
-/

namespace SqlAnalysis

/-- The entries used last, at most `capacity` of them, the latest first. -/
structure Recent (α : Type) where
  capacity : Nat
  entries : List (String × α) := []

namespace Recent

variable (r : Recent α)

def get? (key : String) : Option α := r.entries.lookup key

def contains (key : String) : Bool := r.entries.any fun e => e.1 == key

def size : Nat := r.entries.length

def erase (key : String) : Recent α :=
  { r with entries := r.entries.filter fun e => e.1 != key }

def use (key : String) (value : α) : Recent α :=
  { r with entries := ((key, value) :: (r.erase key).entries).take r.capacity }

def oldest? : Option String := r.entries.getLast?.map Prod.fst

def dropOldest : Recent α := { r with entries := r.entries.dropLast }

def trim (limit : Nat) : Recent α := if limit < r.size then r.dropOldest else r

def clear : Recent α := { r with entries := [] }

end Recent

/-- At most `capacity` answers, and the keys of answers given up lately. -/
structure Cache (α : Type) where
  capacity : Nat
  /-- How many answers used once are kept when the cache is full. -/
  share : Nat := 0
  once : Recent α := { capacity }
  often : Recent α := { capacity }
  lostOnce : Recent Unit := { capacity }
  lostOften : Recent Unit := { capacity }

namespace Cache

def get? (c : Cache α) (key : String) : Option α := (c.once.get? key).or (c.often.get? key)

variable (c : Cache α)

def keepOften (key : String) (value : α) : Cache α :=
  { c with once := c.once.erase key, often := c.often.use key value }

def isFull : Bool := c.capacity ≤ c.once.size + c.often.size

/-- Gives up an answer used once when those have more than their share, else one used more often.
With exactly their share they lose one when a key comes back that was used often. -/
def giveUp (wasOften : Bool) : Cache α :=
  if c.once.size > 0 && (c.once.size > c.share || (c.once.size == c.share && wasOften)) then
    match c.once.oldest? with
    | some key => { c with once := c.once.dropOldest, lostOnce := c.lostOnce.use key () }
    | none => c
  else
    match c.often.oldest? with
    | some key => { c with often := c.often.dropOldest, lostOften := c.lostOften.use key () }
    | none => c

def makeRoom (wasOften : Bool) : Cache α := if c.isFull then c.giveUp wasOften else c

/-- How far the share moves when a key comes back: farther the fewer keys its side has lost beside
the other. -/
def shift (ownLost otherLost : Nat) : Nat := if otherLost > ownLost then otherLost / ownLost else 1

def insert (key : String) (value : α) : Cache α :=
  if c.once.contains key || c.often.contains key then c.keepOften key value
  else if c.lostOnce.contains key then
    let share := min c.capacity (c.share + shift c.lostOnce.size c.lostOften.size)
    let c := { c with share }.makeRoom false
    { c with lostOnce := c.lostOnce.erase key, often := c.often.use key value }
  else if c.lostOften.contains key then
    let share := c.share - shift c.lostOften.size c.lostOnce.size
    let c := { c with share }.makeRoom true
    { c with lostOften := c.lostOften.erase key, often := c.often.use key value }
  else
    let c := c.makeRoom false
    { c with
      lostOnce := c.lostOnce.trim (c.capacity - c.share)
      lostOften := c.lostOften.trim c.share
      once := c.once.use key value }

def clear (c : Cache α) : Cache α :=
  { c with
    once := c.once.clear
    often := c.often.clear
    lostOnce := c.lostOnce.clear
    lostOften := c.lostOften.clear }

end Cache

end SqlAnalysis
