import GroupingSets.Json.Number
import GroupingSets.Json.Text

/-! Passing over values of unknown members, nested however deep. -/
namespace GroupingSets.Json

inductive Enclosure where
  | array
  | object
  deriving DecidableEq, Repr

inductive Place where
  /-- A value comes next. -/
  | value
  /-- A key comes next, and a value behind it. -/
  | key
  /-- A value has just ended. -/
  | behind
  deriving DecidableEq, Repr

def skipKey (s : List Char) : Except ReadError (List Char) :=
  match expect '"' s with
  | .error e => .error e
  | .ok s =>
    match skipCharacters s with
    | .error e => .error e
    | .ok s => expect ':' s

def skipPlain (s : List Char) : Except ReadError (List Char) :=
  match s with
  | 'n' :: rest => expectWord ['u', 'l', 'l'] rest
  | 't' :: rest => expectWord ['r', 'u', 'e'] rest
  | 'f' :: rest => expectWord ['a', 'l', 's', 'e'] rest
  | '"' :: rest => skipCharacters rest
  | s => (readNumeral s).map (·.2)

/-- One step: the next place, what encloses it, and the text from there on. -/
def skipStep (place : Place) (within : List Enclosure) (s : List Char) :
    Except ReadError (Place × List Enclosure × List Char) :=
  match place, skipBlank s with
  | .key, s => (skipKey s).map fun rest => (.value, within, rest)
  | .value, '[' :: rest =>
    match skipBlank rest with
    | ']' :: rest => .ok (.behind, within, rest)
    | rest => .ok (.value, .array :: within, rest)
  | .value, '{' :: rest =>
    match skipBlank rest with
    | '}' :: rest => .ok (.behind, within, rest)
    | rest => .ok (.key, .object :: within, rest)
  | .value, s => (skipPlain s).map fun rest => (.behind, within, rest)
  | .behind, ',' :: rest =>
    match within with
    | .array :: _ => .ok (.value, within, rest)
    | .object :: _ => .ok (.key, within, rest)
    | [] => .error .malformed
  | .behind, ']' :: rest =>
    match within with
    | .array :: outer => .ok (.behind, outer, rest)
    | _ => .error .malformed
  | .behind, '}' :: rest =>
    match within with
    | .object :: outer => .ok (.behind, outer, rest)
    | _ => .error .malformed
  | .behind, _ => .error .malformed

/-- Pass on until the outermost value has ended. Each step takes some of the text. -/
def skipFrom (place : Place) (within : List Enclosure) (s : List Char) :
    Except ReadError (List Char) :=
  match place, within with
  | .behind, [] => .ok s
  | _, _ =>
    match skipStep place within s with
    | .error e => .error e
    | .ok (place, within, rest) =>
      if rest.length < s.length then skipFrom place within rest else .error .malformed
termination_by s.length

def skipValue (s : List Char) : Except ReadError (List Char) := skipFrom .value [] s

end GroupingSets.Json
