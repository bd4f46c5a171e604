import SuperCache.Lib.Base64
import SuperCache.Lib.FiniteMap
import SuperCache.Lib.Utf8

/-! # JSON values of Go data

JSON values as trees, and how Go's `encoding/json` writes strings, byte slices,
booleans, integers, slices, maps and structs as such and reads them back.  A string keeps
its content only as far as it is UTF-8; a byte slice travels as base64.
-/

namespace SuperCache.Lib

inductive Json where
  | null
  | bool (value : Bool)
  | num (value : Int)
  | str (text : Bytes)
  | arr (items : List Json)
  | obj (members : List (Bytes × Json))

namespace Json

/-- How a Go type is read: the zero value of a variable, and what a JSON value makes of the
value it has. -/
structure Reader (ρ : Type) where
  zero : ρ
  read : ρ → Json → Option ρ
  null : read zero .null = some zero

/-! ## Scalars

`null` leaves a string, a boolean or a number as it is and makes a slice empty. -/

def ofString (text : Bytes) : Json :=
  .str (Utf8.coerce text)

def Reader.string : Reader Bytes where
  zero := []
  read
    | _, .str text => some (Utf8.coerce text)
    | old, .null => some old
    | _, _ => none
  null := rfl

/-- A byte slice that is not nil; a nil one is `null`. -/
def ofBytes (bytes : Bytes) : Json :=
  .str (Base64.encode bytes)

def Reader.bytes : Reader Bytes where
  zero := []
  read
    | _, .str text => Base64.decode text
    | _, .null => some []
    | _, _ => none
  null := rfl

def Reader.bool : Reader Bool where
  zero := false
  read
    | _, .bool value => some value
    | old, .null => some old
    | _, _ => none
  null := rfl

def Reader.int64 : Reader Int where
  zero := 0
  read
    | _, .num value => if IsInt64 value then some value else none
    | old, .null => some old
    | _, _ => none
  null := rfl

def Reader.uint64 : Reader Nat where
  zero := 0
  read
    | _, .num value => if 0 ≤ value ∧ value < 2 ^ 64 then some value.toNat else none
    | old, .null => some old
    | _, _ => none
  null := rfl

theorem read_ofString (old text : Bytes) :
    Reader.string.read old (ofString text) = some (Utf8.coerce text) := by
  simp only [Reader.string, ofString, Utf8.coerce_of_valid (Utf8.valid_coerce text)]

@[simp] theorem read_ofBytes (old bytes : Bytes) :
    Reader.bytes.read old (ofBytes bytes) = some bytes :=
  Base64.decode_encode bytes

theorem read_int64 (old : Int) {value : Int} (fits : IsInt64 value) :
    Reader.int64.read old (.num value) = some value :=
  if_pos fits

theorem read_uint64 (old : Nat) {value : Nat} (fits : value < 2 ^ 64) :
    Reader.uint64.read old (.num value) = some value := by
  have inRange : 0 ≤ (value : Int) ∧ (value : Int) < 2 ^ 64 := by omega
  simp only [Reader.uint64, if_pos inRange, Int.toNat_natCast]

/-! ## Slices and maps

The elements of a slice and the values of a map are read into new variables (that a slice
reuses its old elements shows only where a name is given twice and the second time with `null`
for an element); a map keeps the entries it has. -/

def Reader.list {ρ : Type} (item : Reader ρ) : Reader (List ρ) where
  zero := []
  read
    | _, .arr items => items.mapM (item.read item.zero)
    | _, .null => some []
    | _, _ => none
  null := rfl

def ofBytesList (items : List Bytes) : Json :=
  .arr (items.map ofBytes)

def ofStringList (items : List Bytes) : Json :=
  .arr (items.map ofString)

def ofBytesMap (map : GoMap Bytes) : Json :=
  .obj ((sortedElems map.keys).map fun key =>
    (Utf8.coerce key, ofBytes ((map.lookup key).getD [])))

def Reader.bytesMap : Reader (GoMap Bytes) where
  zero := ∅
  read
    | old, .obj members => members.foldlM (fun map member =>
        (Reader.bytes.read [] member.2).map (map.insert (Utf8.coerce member.1) ·)) old
    | _, .null => some ∅
    | _, _ => none
  null := rfl

theorem read_list {ρ σ : Type} {item : Reader ρ} {write : σ → Json} {back : σ → ρ}
    (reads : ∀ value, item.read item.zero (write value) = some (back value)) (old : List ρ)
    (values : List σ) : item.list.read old (.arr (values.map write)) = some (values.map back) := by
  show (values.map write).mapM (item.read item.zero) = _
  induction values with
  | nil => rfl
  | cons first rest ih =>
    simp only [List.map_cons, List.mapM_cons, reads, ih]
    rfl

theorem read_ofBytesList (old items : List Bytes) :
    Reader.bytes.list.read old (ofBytesList items) = some items := by
  rw [ofBytesList, read_list (read_ofBytes _), List.map_id']

theorem read_ofStringList (old items : List Bytes) :
    Reader.string.list.read old (ofStringList items) = some (items.map Utf8.coerce) :=
  read_list (read_ofString _) old items

def coerceKeys (map : GoMap Bytes) : GoMap Bytes :=
  (sortedElems map.keys).foldl
    (fun arrived key => arrived.insert (Utf8.coerce key) ((map.lookup key).getD [])) ∅

theorem read_ofBytesMap (map : GoMap Bytes) :
    Reader.bytesMap.read ∅ (ofBytesMap map) = some (coerceKeys map) := by
  unfold Reader.bytesMap ofBytesMap coerceKeys
  dsimp only
  generalize (∅ : GoMap Bytes) = start
  induction sortedElems map.keys generalizing start with
  | nil => rfl
  | cons key rest ih =>
    simp only [List.map_cons, List.foldlM_cons, read_ofBytes, Option.map_some, List.foldl_cons,
      Utf8.coerce_of_valid (Utf8.valid_coerce key)]
    exact ih _

theorem lookup_foldl_insert (value : Bytes → Bytes) (keys : List Bytes)
    (start : GoMap Bytes) (key : Bytes) :
    (keys.foldl (fun map key => map.insert key (value key)) start).lookup key
      = if key ∈ keys then some (value key) else start.lookup key := by
  induction keys generalizing start with
  | nil => rfl
  | cons first rest ih =>
    rw [List.foldl_cons, ih, lookup_insert_eq_ite]
    by_cases later : key ∈ rest
    · rw [if_pos later, if_pos (List.mem_cons_of_mem _ later)]
    · by_cases here : key = first
      · subst here
        simp only [later, if_false, if_true, List.mem_cons_self]
      · simp only [later, here, List.mem_cons, or_self, if_false]

variable {fields : List (Bytes × Option Json)} {map : GoMap Bytes}
  {name : Bytes} {value : Option Json} {ρ : Type}

theorem mem_coerceKeys {key : Bytes} (arrived : key ∈ coerceKeys map) :
    ∃ sent, key = Utf8.coerce sent := by
  unfold coerceKeys at arrived
  suffices ∀ (keys : List Bytes) (start : GoMap Bytes),
      key ∈ keys.foldl (fun arrived key => arrived.insert (Utf8.coerce key)
        ((map.lookup key).getD [])) start → key ∈ start ∨ ∃ sent, key = Utf8.coerce sent by
    exact (this _ _ arrived).resolve_left Finmap.notMem_empty
  intro keys
  induction keys with
  | nil => exact fun _ => .inl
  | cons first rest ih =>
    intro start member
    rcases ih _ member with before | sent
    · rcases Finmap.mem_insert.mp before with same | old
      · exact .inr ⟨first, same⟩
      · exact .inl old
    · exact .inr sent

theorem coerceKeys_eq_self_iff : coerceKeys map = map ↔ ∀ key ∈ map, Utf8.valid key = true := by
  constructor
  · intro same key member
    rw [← same] at member
    obtain ⟨sent, rfl⟩ := mem_coerceKeys member
    exact Utf8.valid_coerce sent
  · intro ok
    have unchanged : coerceKeys map = (sortedElems map.keys).foldl
        (fun arrived key => arrived.insert key ((map.lookup key).getD [])) ∅ := by
      unfold coerceKeys
      refine List.foldl_ext _ _ _ fun arrived key member => ?_
      rw [Utf8.coerce_of_valid (ok key (Finmap.mem_keys.mp (mem_sortedElems.mp member)))]
    refine Finmap.ext_lookup fun key => ?_
    rw [unchanged, lookup_foldl_insert fun key => (map.lookup key).getD []]
    split
    · next member =>
      obtain ⟨value, found⟩ := Finmap.mem_iff.mp (Finmap.mem_keys.mp (mem_sortedElems.mp member))
      rw [found]
      rfl
    · next absent =>
      have absent : key ∉ map := fun member =>
        absent (mem_sortedElems.mpr (Finmap.mem_keys.mpr member))
      rw [Finmap.lookup_eq_none.mpr absent, Finmap.lookup_empty]

/-! ## Structs -/

/-- `foldName`, exact wherever it gives an ASCII name: besides the ASCII letters only `ſ` and
the Kelvin sign fold to one. -/
def foldName : Bytes → Bytes
  | 197 :: 191 :: rest => 83 :: foldName rest
  | 226 :: 132 :: 170 :: rest => 75 :: foldName rest
  | byte :: rest => (if 97 ≤ byte.val ∧ byte.val ≤ 122 then byte - 32 else byte) :: foldName rest
  | [] => []

/-- What the members of an object make of a field that is new, each member that has the name of
the field in its turn.  A member is matched by its folded name: the exact match that
`encoding/json` tries first is with the same field, as no two fields of a struct here fold alike. -/
def field {ρ : Type} (reader : Reader ρ) (name : Bytes) (members : List (Bytes × Json)) : Option ρ :=
  (members.filter fun member => foldName member.1 = foldName name).foldlM
    (fun old member => reader.read old member.2) reader.zero

def ofFields (fields : List (Bytes × Option Json)) : List (Bytes × Json) :=
  fields.filterMap fun field => field.2.map (field.1, ·)

def omitEmpty (empty : Prop) [Decidable empty] (value : Json) : Option Json :=
  if empty then none else some value

section OmitEmpty

variable {reader : Reader ρ}

theorem read_omitEmpty {empty : Prop} [Decidable empty] {value : Json} {back : ρ}
    (zero : empty → back = reader.zero) (written : reader.read reader.zero value = some back) :
    reader.read reader.zero ((omitEmpty empty value).getD .null) = some back := by
  unfold omitEmpty
  split
  · next isEmpty => rw [zero isEmpty, Option.getD_none, reader.null]
  · exact written

theorem read_omitString (text : Bytes) :
    Reader.string.read [] ((omitEmpty (text = []) (ofString text)).getD .null)
      = some (Utf8.coerce text) :=
  read_omitEmpty (fun empty => by rw [empty]; rfl) (read_ofString _ text)

theorem read_omitBytes (bytes : Bytes) :
    Reader.bytes.read [] ((omitEmpty (bytes = []) (ofBytes bytes)).getD .null) = some bytes :=
  read_omitEmpty id (read_ofBytes _ bytes)

theorem read_omitInt64 {value : Int} (fits : IsInt64 value) :
    Reader.int64.read 0 ((omitEmpty (value = 0) (.num value)).getD .null) = some value :=
  read_omitEmpty id (read_int64 _ fits)

theorem read_omitUInt64 {value : Nat} (fits : value < 2 ^ 64) :
    Reader.uint64.read 0 ((omitEmpty (value = 0) (.num value)).getD .null) = some value :=
  read_omitEmpty id (read_uint64 _ fits)

theorem read_omitBool (value : Bool) :
    Reader.bool.read false ((omitEmpty (value = false) (.bool value)).getD .null) = some value :=
  read_omitEmpty id rfl

theorem read_omitStringList (items : List Bytes) :
    Reader.string.list.read [] ((omitEmpty (items = []) (ofStringList items)).getD .null)
      = some (items.map Utf8.coerce) :=
  read_omitEmpty (fun empty => by rw [empty]; rfl) (read_ofStringList _ items)

theorem read_omitBytesMap (map : GoMap Bytes) :
    Reader.bytesMap.read ∅ ((omitEmpty (map = ∅) (ofBytesMap map)).getD .null)
      = some (coerceKeys map) :=
  read_omitEmpty (fun empty => by rw [empty]; rfl) (read_ofBytesMap map)

theorem read_omitBytesList (items : List Bytes) :
    Reader.bytes.list.read [] ((omitEmpty (items = []) (ofBytesList items)).getD .null) = some items :=
  read_omitEmpty id (read_ofBytesList _ items)

end OmitEmpty

theorem filter_ofFields (distinct : (fields.map fun field => foldName field.1).Nodup)
    (present : (name, value) ∈ fields) :
    (ofFields fields).filter (fun member => foldName member.1 = foldName name)
      = value.toList.map (name, ·) := by
  induction fields with
  | nil => cases present
  | cons first rest ih =>
    obtain ⟨unused, distinct'⟩ := List.nodup_cons.mp distinct
    rcases List.mem_cons.mp present with rfl | later
    · have elsewhere : (ofFields rest).filter (fun member => foldName member.1 = foldName name) = [] := by
        refine List.filter_eq_nil_iff.mpr fun member inside same => unused ?_
        obtain ⟨field, inRest, some_eq⟩ := List.mem_filterMap.mp inside
        obtain ⟨_, -, rfl⟩ := Option.map_eq_some_iff.mp some_eq
        exact List.mem_map.mpr ⟨field, inRest, of_decide_eq_true same⟩
      cases value with
      | none => exact elsewhere
      | some json =>
        show List.filter _ ((name, json) :: ofFields rest) = _
        simp [elsewhere]
    · obtain ⟨firstName, firstValue⟩ := first
      have other : foldName firstName ≠ foldName name := fun same =>
        unused (List.mem_map.mpr ⟨_, later, same.symm⟩)
      cases firstValue with
      | none => exact ih distinct' later
      | some json =>
        show List.filter _ ((firstName, json) :: ofFields rest) = _
        rw [← ih distinct' later, List.filter_cons_of_neg (by simpa using other)]

variable {reader : Reader ρ} {back : ρ}

theorem field_ofFields (name : Bytes)
    (distinct : (fields.map fun field => foldName field.1).Nodup) (present : (name, value) ∈ fields)
    (reads : reader.read reader.zero (value.getD .null) = some back) :
    field reader name (ofFields fields) = some back := by
  unfold field
  rw [filter_ofFields distinct present]
  cases value with
  | none => exact reader.null.symm.trans reads
  | some json =>
    show (reader.read reader.zero json).bind some = some back
    rwa [Option.bind_fun_some]

theorem field_written (name : Bytes) {json : Json}
    (distinct : (fields.map fun field => foldName field.1).Nodup)
    (present : (name, some json) ∈ fields) (reads : reader.read reader.zero json = some back) :
    field reader name (ofFields fields) = some back :=
  field_ofFields name distinct present reads

-- a name is matched whatever its case, and `null` leaves a string as it is
example : field .string (ascii "op") [(ascii "Op", .str (ascii "SET")), (ascii "op", .null)]
    = some (ascii "SET") := by
  decide

end Json

end SuperCache.Lib
