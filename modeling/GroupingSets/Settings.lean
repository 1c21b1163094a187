import GroupingSets.Encoding

/-! How operators are to run: the number of rows in a batch, and the memory that one batch may
take. Settings are read and written by name, as values. -/
namespace GroupingSets

structure Settings where
  /-- Rows that a batch has room for. -/
  batchSize : UInt64 := 2048
  /-- Bytes that the arena of a batch may take, if there is a limit. -/
  arenaLimit : Option UInt64 := none
  deriving DecidableEq, Repr

inductive Setting where
  | batchSize
  | arenaLimit
  deriving DecidableEq, Repr

namespace Setting

def name : Setting → String
  | .batchSize => "batch_size"
  | .arenaLimit => "arena_limit"

def description : Setting → String
  | .batchSize => "Desired number of rows in a batch"
  | .arenaLimit => "Max bytes for a single batch's record arena. Null to disable the limit"

def all : List Setting := [.batchSize, .arenaLimit]

def ofName (name : String) : Except Error Setting :=
  match all.find? (·.name == name) with
  | some setting => .ok setting
  | none => .error (.unknownSetting name)

theorem ofName_name (s : Setting) : ofName s.name = .ok s := by
  cases s <;> rfl

end Setting

namespace Settings

instance : Inhabited Settings := ⟨{}⟩

/-- The value of a setting. Sizes are shown as signed numbers. -/
def get (c : Settings) : Setting → Scalar
  | .batchSize => .int64 c.batchSize.toInt64
  | .arenaLimit =>
    match c.arenaLimit with
    | some limit => .int64 limit.toInt64
    | none => .null

/-- Change a setting. Only the limit can be null, which removes it. -/
def set (c : Settings) (setting : Setting) (v : Scalar) : Except Error Settings :=
  match setting with
  | .batchSize =>
    match v.toSize with
    | .error e => .error e
    | .ok size => if size = 0 then .error .zeroBatchSize else .ok { c with batchSize := size }
  | .arenaLimit =>
    if v.isNull then .ok { c with arenaLimit := none }
    else
      match v.toSize with
      | .error e => .error e
      | .ok size => .ok { c with arenaLimit := some size }

def getNamed (c : Settings) (name : String) : Except Error Scalar :=
  match Setting.ofName name with
  | .error e => .error e
  | .ok setting => .ok (c.get setting)

/-- Change the setting of the given name. A failure leaves the settings as they are. -/
def setNamed (c : Settings) (name : String) (v : Scalar) : Except Error Unit × Settings :=
  match Setting.ofName name with
  | .error e => (.error e, c)
  | .ok setting =>
    match c.set setting v with
    | .error e => (.error e, c)
    | .ok changed => (.ok (), changed)

def resetNamed (c : Settings) (name : String) : Except Error Unit × Settings :=
  match ({} : Settings).getNamed name with
  | .error e => (.error e, c)
  | .ok v => c.setNamed name v

end Settings

end GroupingSets
