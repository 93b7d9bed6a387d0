import ColorCensus.Tally

namespace ColorCensus.Tally

inductive Operation where
  | add (color : Text)
  | addToken (token : Text)
  | addValue (value : Text)
  | addValues (values : List Text)
  | size
  | contains (color : Text)
  | get (color : Text)
  | copy (change : List (Text × Nat) → List (Text × Nat))

inductive Answer where
  | done
  | color (color : Option Text)
  | number (n : Nat)
  | flag (holds : Bool)
  | counts (counts : List (Text × Nat))
  | fault (fault : Color.Fault)
  deriving DecidableEq

def addTokens (t : Tally) (n : Nat) : List Text → Tally × Except Color.Fault Nat
  | [] => (t, .ok n)
  | token :: tokens =>
    match t.addToken token with
    | .ok (u, some _) => u.addTokens (n + 1) tokens
    | .ok (u, none) => u.addTokens n tokens
    | .error f => (t, .error f)

def addEach (t : Tally) (n : Nat) : List Text → Tally × Except Color.Fault Nat
  | [] => (t, .ok n)
  | value :: values =>
    match t.addTokens 0 (Candidate.tokens value) with
    | (u, .ok k) => u.addEach (n + k) values
    | (u, .error f) => (u, .error f)

def Answer.ofCount : Except Color.Fault Nat → Answer
  | .ok n => .number n
  | .error f => .fault f

def step (t : Tally) : Operation → Tally × Answer
  | .add color => (t.add color, .done)
  | .addToken token =>
    match t.addToken token with
    | .ok (u, color) => (u, .color color)
    | .error f => (t, .fault f)
  | .addValue value => (t.addTokens 0 (Candidate.tokens value)).map id Answer.ofCount
  | .addValues values => (t.addEach 0 values).map id Answer.ofCount
  | .size => (t, .number t.size)
  | .contains color => (t, .flag (t.contains color))
  | .get color => (t, .number (t.get color))
  | .copy change => (t, .counts (change t.counts))

def run (t : Tally) : List Operation → Tally × List Answer
  | [] => (t, [])
  | o :: operations =>
    let next := t.step o
    let rest := next.1.run operations
    (rest.1, next.2 :: rest.2)

end ColorCensus.Tally
