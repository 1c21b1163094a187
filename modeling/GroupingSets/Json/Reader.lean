/-! Reading JSON text piece by piece. A reader takes a value from the front of a text and returns
the text behind it; whatever is wrong first, in the order of the text, is what it reports. -/
namespace GroupingSets.Json

inductive ReadError where
  /-- The text is no JSON, or not the JSON that was wanted. -/
  | malformed
  /-- A batch size of zero was read. -/
  | zeroBatchSize
  deriving DecidableEq, Repr

abbrev Reader (α : Type) := List Char → Except ReadError (α × List Char)

def isBlank (c : Char) : Bool := c = ' ' || c = '\t' || c = '\n' || c = '\r'

def skipBlank (s : List Char) : List Char := s.dropWhile isBlank

def expect (c : Char) (s : List Char) : Except ReadError (List Char) :=
  match skipBlank s with
  | d :: rest => if d = c then .ok rest else .error .malformed
  | [] => .error .malformed

def expectWord : List Char → List Char → Except ReadError (List Char)
  | [], s => .ok s
  | c :: word, d :: rest => if d = c then expectWord word rest else .error .malformed
  | _ :: _, [] => .error .malformed

def expectNull (s : List Char) : Except ReadError (List Char) :=
  expectWord ['n', 'u', 'l', 'l'] (skipBlank s)

variable {α σ : Type}

def readAll (read : Reader α) (text : String) : Except ReadError α :=
  match read text.toList with
  | .error e => .error e
  | .ok (a, rest) => if (skipBlank rest).isEmpty then .ok a else .error .malformed

def readBool : Reader Bool := fun s =>
  match skipBlank s with
  | 't' :: rest =>
    match expectWord ['r', 'u', 'e'] rest with
    | .ok rest => .ok (true, rest)
    | .error e => .error e
  | 'f' :: rest =>
    match expectWord ['a', 'l', 's', 'e'] rest with
    | .ok rest => .ok (false, rest)
    | .error e => .error e
  | _ => .error .malformed

def readOption (read : Reader α) : Reader (Option α) := fun s =>
  match skipBlank s with
  | 'n' :: rest =>
    match expectWord ['u', 'l', 'l'] rest with
    | .ok rest => .ok (none, rest)
    | .error e => .error e
  | s =>
    match read s with
    | .ok (a, rest) => .ok (some a, rest)
    | .error e => .error e

/-- The elements of an array behind its first one. Every element takes some of the text, so the
text behind it is shorter. -/
def readElements (item : Reader α) (s : List Char) : Except ReadError (List α × List Char) :=
  match skipBlank s with
  | ']' :: rest => .ok ([], rest)
  | ',' :: rest =>
    match item rest with
    | .error e => .error e
    | .ok (a, t) =>
      if t.length < s.length then
        match readElements item t with
        | .error e => .error e
        | .ok (as, u) => .ok (a :: as, u)
      else .error .malformed
  | _ => .error .malformed
termination_by s.length

def readArray (item : Reader α) : Reader (List α) := fun s =>
  match expect '[' s with
  | .error e => .error e
  | .ok s =>
    match skipBlank s with
    | ']' :: rest => .ok ([], rest)
    | s =>
      match item s with
      | .error e => .error e
      | .ok (a, t) =>
        match readElements item t with
        | .error e => .error e
        | .ok (as, u) => .ok (a :: as, u)

def readKey (key : Reader String) : Reader String := fun s =>
  match key s with
  | .error e => .error e
  | .ok (k, s) =>
    match expect ':' s with
    | .error e => .error e
    | .ok s => .ok (k, s)

def readMembers (key : Reader String) (member : String → σ → Reader σ) (acc : σ) (s : List Char) :
    Except ReadError (σ × List Char) :=
  match skipBlank s with
  | '}' :: rest => .ok (acc, rest)
  | ',' :: rest =>
    match readKey key rest with
    | .error e => .error e
    | .ok (k, t) =>
      match member k acc t with
      | .error e => .error e
      | .ok (acc, u) =>
        if u.length < s.length then readMembers key member acc u else .error .malformed
  | _ => .error .malformed
termination_by s.length

def readObject (key : Reader String) (member : String → σ → Reader σ) (acc : σ) : Reader σ :=
  fun s =>
    match skipBlank s with
    | '}' :: rest => .ok (acc, rest)
    | s =>
      match readKey key s with
      | .error e => .error e
      | .ok (k, t) =>
        match member k acc t with
        | .error e => .error e
        | .ok (acc, u) => readMembers key member acc u

end GroupingSets.Json
