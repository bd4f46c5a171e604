import SuperCache.Lib.Json
import SuperCache.Peer.Apply

/-! # Events and snapshot rows as JSON

How `wireRepl` and `SnapshotEntry` travel: names and keys as JSON strings, values
as base64.
-/

namespace SuperCache

open Lib

/-! ## Operations -/

def ReplOp.name : ReplOp → Bytes
  | .set => ascii "SET"
  | .del => ascii "DEL"
  | .hset => ascii "HSET"
  | .hdel => ascii "HDEL"
  | .sadd => ascii "SADD"
  | .srem => ascii "SREM"
  | .replaceset => ascii "REPLACESET"
  | .lpush => ascii "LPUSH"
  | .rpush => ascii "RPUSH"
  | .flushdb => ascii "FLUSHDB"
  | .flushall => ascii "FLUSHALL"
  | .expire => ascii "EXPIRE"
  | .pexpire => ascii "PEXPIRE"
  | .expireat => ascii "EXPIREAT"
  | .pexpireat => ascii "PEXPIREAT"
  | .persist => ascii "PERSIST"
  | .rename => ascii "RENAME"
  | .lpop => ascii "LPOP"
  | .rpop => ascii "RPOP"
  | .lrem => ascii "LREM"
  | .lset => ascii "LSET"
  | .ltrim => ascii "LTRIM"
  | .linsertBefore => ascii "LINSERT_BEFORE"
  | .linsertAfter => ascii "LINSERT_AFTER"
  | .other name => name

def knownOps : List ReplOp :=
  [.set, .del, .hset, .hdel, .sadd, .srem, .replaceset, .lpush, .rpush, .flushdb, .flushall,
    .expire, .pexpire, .expireat, .pexpireat, .persist, .rename, .lpop, .rpop, .lrem, .lset,
    .ltrim, .linsertBefore, .linsertAfter]

def ReplOp.ofName (name : Bytes) : ReplOp :=
  (knownOps.find? fun op => op.name = toUpper (trimSpace name)).getD (.other name)

def ReplOp.isSent : ReplOp → Bool
  | .other name => name = ascii "BOOTSTRAP"
  | _ => true

theorem ReplOp.ofName_name {op : ReplOp} (sent : op.isSent = true) :
    ReplOp.ofName (Utf8.coerce op.name) = op := by
  cases op with
  | other name =>
    cases of_decide_eq_true sent
    decide
  | _ => decide

/-! ## Events -/

open Json in
/-- The fields of `wireRepl` under their JSON names; all but the operation are
omitted when empty. -/
def wireReplFields (wr : WireRepl) : List (Bytes × Option Json) :=
  let p := wr.payload
  [ (ascii "op", some (ofString p.op.name)),
    (ascii "key", omitEmpty (p.key = []) (ofString p.key)),
    (ascii "value", omitEmpty (p.value = []) (ofBytes p.value)),
    (ascii "ttlms", omitEmpty (p.ttlms = 0) (.num p.ttlms)),
    (ascii "cnt", omitEmpty (p.cnt = 0) (.num p.cnt)),
    (ascii "dest", omitEmpty (p.dest = []) (ofString p.dest)),
    (ascii "fields", omitEmpty (p.fields = ∅) (ofBytesMap p.fields)),
    (ascii "members", omitEmpty (p.members = []) (ofBytesList p.members)),
    (ascii "v", omitEmpty (wr.v = 0) (.num wr.v)),
    (ascii "seq", omitEmpty (wr.seq = 0) (.num wr.seq)),
    (ascii "origin", omitEmpty (wr.origin = []) (ofString wr.origin))]

def encodeWireRepl (wr : WireRepl) : Json :=
  .obj (Json.ofFields (wireReplFields wr))

/-- The members of an object; `null` sets nothing. -/
def membersOf : Json → Option (List (Bytes × Json))
  | .obj members => some members
  | .null => some []
  | _ => none

open Json in
def decodeWireRepl (json : Json) : Option WireRepl := do
  let members ← membersOf json
  let op ← field .string (ascii "op") members
  let key ← field .string (ascii "key") members
  let value ← field .bytes (ascii "value") members
  let ttlms ← field .int64 (ascii "ttlms") members
  let cnt ← field .int64 (ascii "cnt") members
  let dest ← field .string (ascii "dest") members
  let fields ← field .bytesMap (ascii "fields") members
  let elements ← field (.list .bytes) (ascii "members") members
  let v ← field .int64 (ascii "v") members
  let seq ← field .uint64 (ascii "seq") members
  let origin ← field .string (ascii "origin") members
  return {
    payload := {
      op := ReplOp.ofName op, key := key, value := value, ttlms := ttlms, cnt := cnt, dest := dest,
      fields := fields, members := elements }
    v := v
    seq := seq
    origin := origin }

structure WireRepl.Sized (wr : WireRepl) : Prop where
  ttlms : IsInt64 wr.payload.ttlms
  cnt : IsInt64 wr.payload.cnt
  v : IsInt64 wr.v
  seq : wr.seq < 2 ^ 64

def WireRepl.arrived (wr : WireRepl) : WireRepl where
  payload := {
    wr.payload with
    op := ReplOp.ofName (Utf8.coerce wr.payload.op.name)
    key := Utf8.coerce wr.payload.key
    dest := Utf8.coerce wr.payload.dest
    fields := Json.coerceKeys wr.payload.fields }
  v := wr.v
  seq := wr.seq
  origin := Utf8.coerce wr.origin

open Json in
theorem decode_encodeWireRepl {wr : WireRepl} (sized : wr.Sized) :
    decodeWireRepl (encodeWireRepl wr) = some wr.arrived := by
  have distinct : ((wireReplFields wr).map fun field => foldName field.1).Nodup := by
    show ([ascii "op", ascii "key", ascii "value", ascii "ttlms", ascii "cnt", ascii "dest",
      ascii "fields", ascii "members", ascii "v", ascii "seq", ascii "origin"].map foldName).Nodup
    decide
  unfold decodeWireRepl
  have reads {ρ : Type} {reader : Reader ρ} (name : Bytes) {value : Option Json} {back : ρ}
      (back_eq : reader.read reader.zero (value.getD .null) = some back)
      (present : (name, value) ∈ wireReplFields wr) :
      field reader name (ofFields (wireReplFields wr)) = some back :=
    field_ofFields name distinct present back_eq
  have op : Reader.string.read [] ((some (ofString wr.payload.op.name)).getD .null)
      = some (Utf8.coerce wr.payload.op.name) := read_ofString _ _
  simp only [encodeWireRepl, membersOf, Option.bind_eq_bind, Option.bind_some,
    reads (ascii "op") op (by simp [wireReplFields]),
    reads (ascii "key") (read_omitString wr.payload.key) (by simp [wireReplFields]),
    reads (ascii "value") (read_omitBytes wr.payload.value) (by simp [wireReplFields]),
    reads (ascii "ttlms") (read_omitInt64 sized.ttlms) (by simp [wireReplFields]),
    reads (ascii "cnt") (read_omitInt64 sized.cnt) (by simp [wireReplFields]),
    reads (ascii "dest") (read_omitString wr.payload.dest) (by simp [wireReplFields]),
    reads (ascii "fields") (read_omitBytesMap wr.payload.fields) (by simp [wireReplFields]),
    reads (ascii "members") (read_omitBytesList wr.payload.members) (by simp [wireReplFields]),
    reads (ascii "v") (read_omitInt64 sized.v) (by simp [wireReplFields]),
    reads (ascii "seq") (read_omitUInt64 sized.seq) (by simp [wireReplFields]),
    reads (ascii "origin") (read_omitString wr.origin) (by simp [wireReplFields])]
  rfl

/-! ## Snapshot rows -/

open Json in
/-- The fields of `SnapshotEntry`, none of them ever omitted. -/
def snapshotFields (key type : Bytes) (v f m e : Json) (ttlMs : Int) :
    List (Bytes × Option Json) :=
  [ (ascii "k", some (ofString key)),
    (ascii "t", some (ofString type)),
    (ascii "v", some v),
    (ascii "f", some f),
    (ascii "m", some m),
    (ascii "e", some e),
    (ascii "ttl", some (.num ttlMs))]

open Json in
def encodeSnapshotEntry (ent : SnapshotEntry) : Json :=
  let row (type : Bytes) (v f m e : Json) : Json :=
    .obj (ofFields (snapshotFields ent.key type v f m e ent.ttlMs))
  match ent.value with
  | .string value => row (ascii "string") (ofBytes value) .null .null .null
  | .hash fields => row (ascii "hash") .null (ofBytesMap fields) .null .null
  | .list elements => row (ascii "list") .null .null .null (ofBytesList elements)
  | .set members => row (ascii "set") .null .null (ofBytesList members) .null
  | .unknown type => row type .null .null .null .null

def SnapshotValue.ofParts (type value : Bytes) (fields : GoMap Bytes)
    (members elements : List Bytes) : SnapshotValue :=
  if type = ascii "string" then .string value
  else if type = ascii "hash" then .hash fields
  else if type = ascii "list" then .list elements
  else if type = ascii "set" then .set members
  else .unknown type

open Json in
def decodeSnapshotEntry (json : Json) : Option SnapshotEntry := do
  let names ← membersOf json
  let key ← field .string (ascii "k") names
  let type ← field .string (ascii "t") names
  let value ← field .bytes (ascii "v") names
  let fields ← field .bytesMap (ascii "f") names
  let members ← field (.list .bytes) (ascii "m") names
  let elements ← field (.list .bytes) (ascii "e") names
  let ttlMs ← field .int64 (ascii "ttl") names
  return {
    key := key
    value := SnapshotValue.ofParts type value fields members elements
    ttlMs := ttlMs }

open Json in
theorem decode_snapshotFields {key type value : Bytes} {v f m e : Json} {ttlMs : Int}
    {fields : GoMap Bytes} {members elements : List Bytes} (fits : IsInt64 ttlMs)
    (value_eq : Reader.bytes.read [] v = some value)
    (fields_eq : Reader.bytesMap.read ∅ f = some fields)
    (members_eq : Reader.bytes.list.read [] m = some members)
    (elements_eq : Reader.bytes.list.read [] e = some elements) :
    decodeSnapshotEntry (.obj (ofFields (snapshotFields key type v f m e ttlMs)))
      = some {
          key := Utf8.coerce key
          value := SnapshotValue.ofParts (Utf8.coerce type) value fields members elements
          ttlMs := ttlMs } := by
  have distinct : ((snapshotFields key type v f m e ttlMs).map fun field => foldName field.1).Nodup := by
    show ([ascii "k", ascii "t", ascii "v", ascii "f", ascii "m", ascii "e", ascii "ttl"].map
      foldName).Nodup
    decide
  have reads {ρ : Type} {reader : Reader ρ} (name : Bytes) {written : Json} {back : ρ}
      (back_eq : reader.read reader.zero written = some back)
      (present : (name, some written) ∈ snapshotFields key type v f m e ttlMs) :
      field reader name (ofFields (snapshotFields key type v f m e ttlMs)) = some back :=
    field_written name distinct present back_eq
  unfold decodeSnapshotEntry
  simp only [membersOf, Option.bind_eq_bind, Option.bind_some,
    reads (ascii "k") (read_ofString _ key) (by simp [snapshotFields]),
    reads (ascii "t") (read_ofString _ type) (by simp [snapshotFields]),
    reads (ascii "v") value_eq (by simp [snapshotFields]),
    reads (ascii "f") fields_eq (by simp [snapshotFields]),
    reads (ascii "m") members_eq (by simp [snapshotFields]),
    reads (ascii "e") elements_eq (by simp [snapshotFields]),
    reads (ascii "ttl") (read_int64 _ fits) (by simp [snapshotFields])]
  rfl

def SnapshotValue.arrived : SnapshotValue → SnapshotValue
  | .hash fields => .hash (Json.coerceKeys fields)
  | value => value

/-- One of the four types that `buildSnapshotEntry` gives a row. -/
def SnapshotValue.isBuilt : SnapshotValue → Bool
  | .unknown _ => false
  | _ => true

open Json in
theorem decode_encodeSnapshotEntry {ent : SnapshotEntry} (fits : IsInt64 ent.ttlMs)
    (built : ent.value.isBuilt = true) :
    decodeSnapshotEntry (encodeSnapshotEntry ent)
      = some { ent with key := Utf8.coerce ent.key, value := ent.value.arrived } := by
  obtain ⟨key, value, ttlMs⟩ := ent
  cases value with
  | string value =>
    exact decode_snapshotFields fits (read_ofBytes _ value) rfl rfl rfl
  | hash fields =>
    exact decode_snapshotFields fits rfl (read_ofBytesMap fields) rfl rfl
  | list elements =>
    exact decode_snapshotFields fits rfl rfl rfl (read_ofBytesList _ elements)
  | set members =>
    exact decode_snapshotFields fits rfl rfl (read_ofBytesList _ members) rfl
  | unknown => cases built

/-! ## What survives the trip -/

def ReplicatePayload.ValidNames (p : ReplicatePayload) : Prop :=
  Utf8.valid p.key = true ∧ Utf8.valid p.dest = true ∧ ∀ field ∈ p.fields, Utf8.valid field = true

def SnapshotValue.ValidNames : SnapshotValue → Prop
  | .hash fields => ∀ field ∈ fields, Utf8.valid field = true
  | _ => True

def SnapshotEntry.ValidNames (ent : SnapshotEntry) : Prop :=
  Utf8.valid ent.key = true ∧ ent.value.ValidNames

theorem WireRepl.arrived_payload_eq_iff {wr : WireRepl} (sent : wr.payload.op.isSent = true) :
    wr.arrived.payload = wr.payload ↔ wr.payload.ValidNames := by
  unfold ReplicatePayload.ValidNames
  rw [← Utf8.coerce_eq_self_iff, ← Utf8.coerce_eq_self_iff, ← Json.coerceKeys_eq_self_iff]
  constructor
  · intro same
    exact ⟨congrArg ReplicatePayload.key same, congrArg ReplicatePayload.dest same,
      congrArg ReplicatePayload.fields same⟩
  · rintro ⟨key, dest, fields⟩
    simp only [WireRepl.arrived, ReplOp.ofName_name sent, key, dest, fields]

theorem SnapshotValue.arrived_eq_iff (value : SnapshotValue) :
    value.arrived = value ↔ value.ValidNames := by
  cases value with
  | hash fields =>
    simp only [SnapshotValue.arrived, SnapshotValue.ValidNames, SnapshotValue.hash.injEq,
      Json.coerceKeys_eq_self_iff]
  | _ => exact iff_of_true rfl trivial

/-- An event or a snapshot row reads back as it was sent exactly when its keys and
field names are valid UTF-8; values, members and elements always do. -/
theorem wire_identity_iff (wr : WireRepl) (ent : SnapshotEntry) (sized : wr.Sized)
    (sent : wr.payload.op.isSent = true) (fits : IsInt64 ent.ttlMs)
    (built : ent.value.isBuilt = true) :
    ((decodeWireRepl (encodeWireRepl wr)).map WireRepl.payload = some wr.payload
        ↔ wr.payload.ValidNames)
      ∧ (decodeSnapshotEntry (encodeSnapshotEntry ent) = some ent ↔ ent.ValidNames) := by
  constructor
  · rw [decode_encodeWireRepl sized, Option.map_some, Option.some_inj,
      WireRepl.arrived_payload_eq_iff sent]
  · rw [decode_encodeSnapshotEntry fits built, Option.some_inj]
    unfold SnapshotEntry.ValidNames
    rw [← Utf8.coerce_eq_self_iff, ← SnapshotValue.arrived_eq_iff]
    constructor
    · intro same
      exact ⟨congrArg SnapshotEntry.key same, congrArg SnapshotEntry.value same⟩
    · rintro ⟨key, value⟩
      rw [key, value]

/-- `HSET` of one field, as it is sent. -/
def hsetEvent (key field value : Bytes) : WireRepl where
  payload := {
    op := .hset, key := key, value := [], ttlms := 0, cnt := 0, dest := [],
    fields := (∅ : GoMap Bytes).insert field value, members := [] }
  v := 1
  seq := 1
  origin := ascii "a"

def hashRow (key field value : Bytes) : SnapshotEntry where
  key := key
  value := .hash ((∅ : GoMap Bytes).insert field value)
  ttlMs := 0

/-- `k` and `é` survive, with a value that is not UTF-8. -/
theorem named_hash_survives :
    (decodeWireRepl (encodeWireRepl (hsetEvent [107] [195, 169] [255]))).map WireRepl.payload
        = some (hsetEvent [107] [195, 169] [255]).payload
      ∧ decodeSnapshotEntry (encodeSnapshotEntry (hashRow [107] [195, 169] [255]))
        = some (hashRow [107] [195, 169] [255]) := by
  have identity := wire_identity_iff (hsetEvent [107] [195, 169] [255])
    (hashRow [107] [195, 169] [255]) ⟨by decide, by decide, by decide, by decide⟩ rfl
    (by decide) rfl
  have field (name : Bytes) (present : name ∈ (∅ : GoMap Bytes).insert [195, 169] [255]) :
      Utf8.valid name = true := by
    rcases Finmap.mem_insert.mp present with same | absent
    · rw [same]
      decide
    · exact absurd absent Finmap.notMem_empty
  exact ⟨identity.1.mpr ⟨by decide, by decide, field⟩, identity.2.mpr ⟨by decide, field⟩⟩

/-- The keys `FF` and `FE` arrive as one and the same, in an event and in a row. -/
theorem two_keys_collide :
    (decodeWireRepl (encodeWireRepl (hsetEvent [255] [102] []))).map (·.payload.key)
        = some [239, 191, 189]
      ∧ (decodeWireRepl (encodeWireRepl (hsetEvent [254] [102] []))).map (·.payload.key)
        = some [239, 191, 189]
      ∧ (decodeSnapshotEntry (encodeSnapshotEntry (hashRow [255] [102] []))).map (·.key)
        = some [239, 191, 189]
      ∧ (decodeSnapshotEntry (encodeSnapshotEntry (hashRow [254] [102] []))).map (·.key)
        = some [239, 191, 189] := by
  decide +kernel

end SuperCache
