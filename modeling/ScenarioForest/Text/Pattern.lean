import ScenarioForest.Text.Blank
set_option autoImplicit false

/-!
Patterns, and the ways in which a pattern takes the front of a text. The ways stand in the order in
which they are tried. The first of two alternatives comes first; a greedy repetition goes on before
it stops, and any other stops before it goes on. What a pattern finds is its first way.
-/

namespace ScenarioForest

/-- What is taken from the front of a text, what of it is noted under a name, the latest first, and
what is left. -/
structure Take where
  taken : Text
  notes : List (String × Text)
  rest : Text
  deriving DecidableEq, Repr

def Take.nothing (t : Text) : Take := ⟨[], [], t⟩

def Take.andThen (m n : Take) : Take := ⟨m.taken ++ n.taken, n.notes ++ m.notes, n.rest⟩

def Take.noted (m : Take) (name : String) : Take := { m with notes := (name, m.taken) :: m.notes }

inductive Pattern where
  | word (w : Text)
  | one (allowed : Char → Bool)
  | seq (p q : Pattern)
  | either (p q : Pattern)
  | repeated (greedy : Bool) (p : Pattern)
  | noted (name : String) (p : Pattern)
  | finish

def Pattern.oneOrMore (greedy : Bool) (p : Pattern) : Pattern := .seq p (.repeated greedy p)

def Pattern.optional (p : Pattern) : Pattern := .either p (.word [])

/-- The ways to repeat something any number of times. There is no round that takes nothing. -/
def rounds (ways : Text → List Take) (greedy : Bool) (t : Text) : List Take :=
  let more := (ways t).flatMap fun m =>
    if m.rest.length < t.length then (rounds ways greedy m.rest).map m.andThen else []
  if greedy then more ++ [.nothing t] else .nothing t :: more
termination_by t.length

def Pattern.ways : Pattern → Text → List Take
  | .word w, t => (w.isPrefixOf? t).toList.map (⟨w, [], ·⟩)
  | .one _, [] => []
  | .one allowed, c :: t => if allowed c then [⟨[c], [], t⟩] else []
  | .seq p q, t => (p.ways t).flatMap fun m => (q.ways m.rest).map m.andThen
  | .either p q, t => p.ways t ++ q.ways t
  | .repeated greedy p, t => rounds p.ways greedy t
  | .noted name p, t => (p.ways t).map (·.noted name)
  | .finish, t => if t.isEmpty then [.nothing t] else []

def Pattern.notes? (p : Pattern) (t : Text) : Option (List (String × Text)) :=
  (p.ways t).head?.map (·.notes)

end ScenarioForest
