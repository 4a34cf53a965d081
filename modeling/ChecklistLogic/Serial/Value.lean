/-!
# ChecklistLogic — serialized values

Trees of named members, lists, texts and numbers, in which rules, settings and cells are stored.

* `Value.fields?` finds the fields of a record: by name in an object, where the order of the members
  and members of other names do not matter, or by position in an array. Fields that are written
  under different names are found again (`fields?_record`).
* `Value.variant?` is the tag and the content of an object with exactly one member.
* `Value.constant?` is the name of a form without content, which may be written as a text or as a
  tag with `null` as its content.
-/

namespace ChecklistLogic.Serial

/-- A serialized value. -/
inductive Value where
  | null
  | bool (value : Bool)
  | integer (value : Int)
  /-- A number written with a point or an exponent, as it is written. No stored type has such
  numbers. -/
  | fraction (written : String)
  | text (value : String)
  | array (elements : List Value)
  | object (members : List (String × Value))
  deriving Inhabited

namespace Value

/-- A record: an object with the given names and fields, in this order. -/
def record (names : List String) (fields : List Value) : Value :=
  .object (names.zip fields)

/-- The fields of a record with the given names. An object holds them under their names, and a
missing member counts as `null`; an array holds just these fields, in this order. -/
def fields? (names : List String) : Value → Option (List Value)
  | .object members => some (names.map fun name => (members.lookup name).getD .null)
  | .array elements => if elements.length = names.length then some elements else none
  | _ => none

/-- The tag and the content of an object with exactly one member. -/
def variant? : Value → Option (String × Value)
  | .object [(tag, content)] => some (tag, content)
  | _ => none

/-- An object with exactly one member. -/
def variant (tag : String) (content : Value) : Value :=
  .object [(tag, content)]

/-- The name of a form without content. -/
def constant? : Value → Option String
  | .text name => some name
  | .object [(name, .null)] => some name
  | _ => none

/-- A truth value. -/
def bool? : Value → Option Bool
  | .bool value => some value
  | _ => none

/-- A text. -/
def text? : Value → Option String
  | .text value => some value
  | _ => none

/-- The elements of an array. -/
def elements? : Value → Option (List Value)
  | .array elements => some elements
  | _ => none

/-- A whole number from zero up to, but not including, `bound`. -/
def natBelow? (bound : Nat) : Value → Option Nat
  | .integer value => if 0 ≤ value ∧ value < bound then some value.toNat else none
  | _ => none

/-- A number of 32 bits. -/
def ofUInt32 (n : UInt32) : Value :=
  .integer n.toNat

/-- Reads a number of 32 bits. -/
def uint32? (value : Value) : Option UInt32 :=
  UInt32.ofNat <$> value.natBelow? UInt32.size

/-- A number of 64 bits. -/
def ofUInt64 (n : UInt64) : Value :=
  .integer n.toNat

/-- Reads a number of 64 bits. -/
def uint64? (value : Value) : Option UInt64 :=
  UInt64.ofNat <$> value.natBelow? UInt64.size

/-- Reads one of the listed values by its name. -/
def named? {α : Type} (all : List α) (name : α → String) (value : Value) : Option α := do
  let written ← value.constant?
  all.find? fun candidate => name candidate = written

/-- Fields that are written under different names are found again. -/
theorem fields?_record {names : List String} {fields : List Value} (hNames : names.Nodup)
    (hLength : names.length = fields.length) :
    (record names fields).fields? names = some fields := by
  simp only [record, fields?, Option.some.injEq]
  induction names generalizing fields with
  | nil => simpa [eq_comm] using hLength
  | cons name names ih =>
    match fields, hLength with
    | field :: fields, hLength =>
      have hHead : name ∉ names := (List.nodup_cons.1 hNames).1
      have hTail := ih (List.nodup_cons.1 hNames).2 (Nat.succ.inj hLength)
      have hSkip : ∀ other ∈ names,
          (((name, field) :: names.zip fields).lookup other).getD null =
            ((names.zip fields).lookup other).getD null := by
        intro other hOther
        have hNe : (other == name) = false := by
          simpa using fun hEq : other = name => hHead (hEq ▸ hOther)
        simp [List.lookup_cons, hNe]
      simp only [List.zip_cons_cons, List.map_cons, List.lookup_cons_self, Option.getD_some]
      rw [List.map_congr_left hSkip, hTail]

@[simp]
theorem variant?_variant (tag : String) (content : Value) :
    (variant tag content).variant? = some (tag, content) := rfl

theorem natBelow?_integer {bound n : Nat} (hBound : n < bound) :
    natBelow? bound (.integer n) = some n := by
  simp [natBelow?, hBound]

@[simp]
theorem uint32?_ofUInt32 (n : UInt32) : (ofUInt32 n).uint32? = some n := by
  simp [uint32?, ofUInt32, natBelow?_integer n.toNat_lt_size]

@[simp]
theorem uint64?_ofUInt64 (n : UInt64) : (ofUInt64 n).uint64? = some n := by
  simp [uint64?, ofUInt64, natBelow?_integer n.toNat_lt_size]

end Value

end ChecklistLogic.Serial
