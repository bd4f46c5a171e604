import SuperCache.Commands.StoreCalls
import SuperCache.Store.Sections

/-! # Commands on one key, interleaved

Any number of sessions, each with one command on the same key.  A move is a clock reading
or a Store call of one session.  If, while a command is between its first and its last
Store call, nothing changes the key's entry, then the replies and the final value are those
of the commands one after another, each with the clock readings it made.
-/

namespace SuperCache

open Lib

/-! ## The machine -/

/-- `times` has the clock readings a command has made, `called` whether one of them was for a
Store call. -/
structure RmwWorld (ι : Type) where
  store : Store
  clock : Time
  prog : ι → CmdProg
  times : ι → List Time
  called : ι → Bool

namespace RmwWorld

variable {ι : Type} [DecidableEq ι] (key : Key)

def start (s : Store) (now : Time) (prog : ι → CmdProg) : RmwWorld ι where
  store := s
  clock := now
  prog := prog
  times := fun _ => []
  called := fun _ => false

def goOn (w : RmwWorld ι) (i : ι) (now : Time) (rest : CmdProg) : RmwWorld ι :=
  { w with
    clock := now
    prog := Function.update w.prog i rest
    times := Function.update w.times i (w.times i ++ [now]) }

def step (w : RmwWorld ι) (move : ι × Time) : Option (RmwWorld ι) :=
  if w.clock ≤ move.2 then
    match w.prog move.1 with
    | .reply _ => none
    | .clock next => some (w.goOn move.1 move.2 (next move.2))
    | .call c next =>
      let done := w.store.run move.2 key (c.op move.2 key)
      some { w.goOn move.1 move.2 (next done.2) with
        store := done.1, called := Function.update w.called move.1 true }
  else none

def Midway (w : RmwWorld ι) (i : ι) : Prop :=
  w.called i = true ∧ (w.prog i).isReply = false

def UndisturbedAt (w : RmwWorld ι) (move : ι × Time) : CmdProg → Prop
  | .call c next =>
    let done := w.store.run move.2 key (c.op move.2 key)
    ((∃ j, w.Midway j ∧ (j ≠ move.1 ∨ (next done.2).isReply = false)) →
      done.1.stored key = w.store.stored key
        ∧ (w.store.lookup move.2 key).current = w.store.stored key)
    ∧ (c = .ttlMs → ∀ e ∈ w.store.stored key, e.expiresAt ≠ move.2)
  | _ => True

/-- While a command is midway, the key's entry neither changes nor expires, but through its
own last call; and the time that is left is not asked for at the very instant of the
deadline. -/
def Undisturbed (w : RmwWorld ι) (move : ι × Time) : Prop :=
  w.UndisturbedAt key move (w.prog move.1)

instance (w : RmwWorld ι) (i : ι) : Decidable (w.Midway i) :=
  inferInstanceAs (Decidable (_ ∧ _))

instance [Fintype ι] (w : RmwWorld ι) (move : ι × Time) : ∀ p, Decidable (w.UndisturbedAt key move p)
  | .reply _ | .clock _ => .isTrue trivial
  | .call _ _ => inferInstanceAs (Decidable ((_ → _) ∧ (_ → _)))

instance [Fintype ι] (w : RmwWorld ι) (move : ι × Time) : Decidable (w.Undisturbed key move) :=
  inferInstanceAs (Decidable (w.UndisturbedAt key move _))

/-- The commands one after another: each is run alone with its clock readings and gives its
reply. -/
def Serially (prog : ι → CmdProg) (times : ι → List Time) (reply : ι → CmdProg) :
    List ι → Store → Store → Prop
  | [], s, t => s = t
  | i :: rest, s, t => ∃ mid, (prog i).advance key (times i) s = some (mid, reply i)
      ∧ Serially prog times reply rest mid t

end RmwWorld

/-! ## What a call makes of the entry -/

section Cell

variable {key : Key} {c : KeyCall} {now : Time} {cell other : Option Entry} {p : CmdProg}

theorem KeyCall.op_blind (c : KeyCall) (now : Time) (key : Key) : (c.op now key).Blind := by
  cases c with
  | get | ttlMs | exists1 | del | set val expiresAt | setNX val expiresAt | setXX val expiresAt =>
    exact fun e => ⟨rfl, rfl, rfl⟩

theorem KeyCall.op_congr (c : KeyCall) (key : Key) (same : (look now cell).current = (look now other).current) :
    (c.op now key).after (look now cell) = (c.op now key).after (look now other)
      ∧ (c.op now key).answer (look now cell) = (c.op now key).answer (look now other) := by
  obtain ⟨after, answer, -⟩ := (c.op_blind now key).current (look now cell)
  obtain ⟨after', answer', -⟩ := (c.op_blind now key).current (look now other)
  rw [after, answer, after', answer', same]
  exact ⟨rfl, rfl⟩

def KeyCall.reads : KeyCall → Bool
  | .get | .ttlMs | .exists1 => true
  | _ => false

theorem KeyCall.after_of_reads (reads : c.reads = true)
    (notThen : c = .ttlMs → ∀ e ∈ cell, e.expiresAt ≠ now) :
    (c.op now key).after (look now cell) = (look now cell).current := by
  cases c with
  | get =>
    cases look now cell with
    | missing | expired => rfl
    | live e =>
      simp only [op, KeyOp.get, KeyOp.after]
      split
      · rfl
      · rfl
  | exists1 => cases look now cell <;> rfl
  | ttlMs =>
    cases cell with
    | none => rfl
    | some e =>
      simp only [look]
      split
      · rfl
      · next fresh =>
        simp only [op, KeyOp.ttlMs, KeyOp.ttlIn, KeyOp.after]
        split
        · rfl
        · next deadline =>
          -- The entry is live and the deadline is not now, so it is still to come.
          have apart := notThen rfl e rfl
          have ahead : now < e.expiresAt := by
            simp only [isExpired, decide_eq_true_eq, not_and, not_lt] at fresh
            exact lt_of_le_of_ne (fresh deadline) (Ne.symm apart)
          rw [if_neg (not_le.mpr (untilTime_pos ahead))]
          rfl
  | del | set val expiresAt | setNX val expiresAt | setXX val expiresAt => cases reads

def cellAdvance (key : Key) : CmdProg → List Time → Option Entry → Option (Option Entry × CmdProg)
  | p, [], cell => some (cell, p)
  | .reply _, _ :: _, _ => none
  | .clock next, now :: later, cell => cellAdvance key (next now) later cell
  | .call c next, now :: later, cell =>
    cellAdvance key (next ((c.op now key).answer (look now cell))) later
      ((c.op now key).after (look now cell))

theorem cellAdvance_nil : cellAdvance key p [] cell = some (cell, p) := by
  cases p <;> rfl

def cellStep (key : Key) (now : Time) (cell : Option Entry) : CmdProg → Option (Option Entry × CmdProg)
  | .reply _ => none
  | .clock next => some (cell, next now)
  | .call c next =>
    some ((c.op now key).after (look now cell), next ((c.op now key).answer (look now cell)))

theorem cellAdvance_concat {times : List Time} {p rest : CmdProg} {cell mid : Option Entry}
    (until_ : cellAdvance key p times cell = some (mid, rest)) :
    cellAdvance key p (times ++ [now]) cell = cellStep key now mid rest := by
  induction times generalizing p cell with
  | nil =>
    rw [cellAdvance_nil] at until_
    cases until_
    cases rest with
    | reply r => rfl
    | clock next | call c next => exact cellAdvance_nil
  | cons first times ih =>
    cases p with
    | reply r => cases until_
    | clock next | call c next => exact ih until_

theorem advance_of_cellAdvance {times : List Time} {p rest : CmdProg} {s : Store}
    (unlimited : s.maxMem = 0) (ends : cellAdvance key p times (s.stored key) = some (cell, rest)) :
    ∃ t, p.advance key times s = some (t, rest) ∧ t.stored key = cell ∧ t.maxMem = 0 := by
  induction times generalizing p s with
  | nil =>
    rw [cellAdvance_nil] at ends
    cases ends
    refine ⟨s, ?_, rfl, unlimited⟩
    cases rest <;> rfl
  | cons now times ih =>
    cases p with
    | reply r => cases ends
    | clock next => exact ih unlimited ends
    | call c next =>
      obtain ⟨stored, answer⟩ := s.run_fits now key (c.op now key) (.inr (.inl unlimited))
      have after := stored key
      rw [if_pos rfl] at after
      refine ih ((s.run_frame now key (c.op now key)).1.trans unlimited) ?_
      rw [after, answer]
      exact ends

inductive ReadsFirst : CmdProg → Prop
  | reply (r : Reply) : ReadsFirst (.reply r)
  | clock (next : Time → CmdProg) (later : ∀ now, ReadsFirst (next now)) : ReadsFirst (.clock next)
  | read (c : KeyCall) (next : Except StoreErr c.Result → CmdProg) (reads : c.reads = true)
      (later : ∀ result, ReadsFirst (next result)) : ReadsFirst (.call c next)
  | last (c : KeyCall) (next : Except StoreErr c.Result → CmdProg)
      (ends : ∀ result, (next result).isReply = true) : ReadsFirst (.call c next)

end Cell

/-! ## The commands read first -/

section ReadsFirst

theorem readsFirst_of_isReply {p : CmdProg} (ends : p.isReply = true) : ReadsFirst p := by
  cases p with
  | reply r => exact .reply r
  | clock next | call c next => cases ends

theorem readsFirst_onOk_last (c : KeyCall) (onError : StoreErr → Reply) (reply : c.Result → Reply) :
    ReadsFirst (CmdProg.onOk c onError fun result => .reply (reply result)) :=
  .last _ _ fun result => by cases result <;> rfl

theorem readsFirst_onOk_read {c : KeyCall} (reads : c.reads = true) (onError : StoreErr → Reply)
    {next : c.Result → CmdProg} (later : ∀ result, ReadsFirst (next result)) :
    ReadsFirst (CmdProg.onOk c onError next) := by
  refine .read _ _ reads fun result => ?_
  cases result with
  | error failure => exact .reply _
  | ok result => exact later result

theorem readsFirst_applySet (val : Bytes) (exp : Time) (nx xx : Bool) (onError : StoreErr → Reply)
    (reply : Bool → Reply) : ReadsFirst (applySetProg val exp nx xx onError reply) := by
  unfold applySetProg
  split
  · exact readsFirst_onOk_last ..
  · split
    · exact readsFirst_onOk_last ..
    · exact readsFirst_onOk_last ..

theorem readsFirst_setDecided (val : Bytes) (o : SetOptions) (exp : Time) :
    ReadsFirst (setDecidedProg val o exp) := by
  unfold setDecidedProg
  split
  · exact .reply _
  · split
    · exact readsFirst_onOk_read rfl _ fun _ => readsFirst_applySet ..
    · exact readsFirst_applySet ..

theorem readsFirst_setKept (val : Bytes) (o : SetOptions) (exp : Time) :
    ReadsFirst (setKeptProg val o exp) := by
  unfold setKeptProg
  split
  · refine .read _ _ rfl fun result => ?_
    cases result with
    | error failure => exact readsFirst_setDecided ..
    | ok ms =>
      simp only [setAnsweredProg]
      split
      · exact .clock _ fun _ => readsFirst_setDecided ..
      · exact readsFirst_setDecided ..
  · exact readsFirst_setDecided ..

theorem RmwCommand.readsFirst (fl : FloatOps) (c : RmwCommand) : ReadsFirst (c.prog fl) := by
  cases c with
  | get => exact readsFirst_onOk_last ..
  | set val opts =>
    simp only [prog, setProg]
    cases parseSetOptions {} opts with
    | error err => exact .reply _
    | ok o =>
      simp only
      split
      · exact readsFirst_setKept ..
      · split
        · exact .clock _ fun _ => readsFirst_setKept ..
        · exact readsFirst_setKept ..
  | getDel =>
    refine readsFirst_onOk_read rfl _ fun prev => ?_
    cases prev with
    | none => exact .reply _
    | some bytes => exact .last _ _ fun _ => rfl
  | incrByFloat delta =>
    simp only [prog, incrByFloatProg]
    cases fl.parse delta with
    | none => exact .reply _
    | some delta =>
      refine readsFirst_onOk_read rfl _ fun text => ?_
      cases floatStart fl text with
      | none => exact .reply _
      | some f => exact readsFirst_onOk_last ..
  | setRange offset val =>
    simp only [prog, setRangeProg]
    cases parseInt offset with
    | none => exact .reply _
    | some offset =>
      simp only
      split
      · exact .reply _
      · exact readsFirst_onOk_read rfl _ fun bytes => readsFirst_onOk_last ..
  | del => exact .read _ _ rfl fun _ => .last _ _ fun result => by cases result <;> rfl

end ReadsFirst

/-! ## One after another -/

namespace RmwWorld

variable {ι : Type} {key : Key} {prog : ι → CmdProg}

def CellSerially (key : Key) (prog : ι → CmdProg) (times : ι → List Time) (reply : ι → CmdProg) :
    List ι → Option Entry → Option Entry → Prop
  | [], cell, final => cell = final
  | i :: rest, cell, final => ∃ mid, cellAdvance key (prog i) (times i) cell = some (mid, reply i)
      ∧ CellSerially key prog times reply rest mid final

section Serially

variable {times times' : ι → List Time} {reply reply' : ι → CmdProg} {order : List ι}
  {cell mid final : Option Entry} {i : ι}

theorem CellSerially.concat (first : CellSerially key prog times reply order cell mid)
    (last : cellAdvance key (prog i) (times i) mid = some (final, reply i)) :
    CellSerially key prog times reply (order ++ [i]) cell final := by
  induction order generalizing cell with
  | nil =>
    cases first
    exact ⟨final, last, rfl⟩
  | cons j rest ih =>
    obtain ⟨next, here, later⟩ := first
    exact ⟨next, here, ih later⟩

theorem CellSerially.congr (serial : CellSerially key prog times reply order cell final)
    (same : ∀ j ∈ order, times' j = times j ∧ reply' j = reply j) :
    CellSerially key prog times' reply' order cell final := by
  induction order generalizing cell with
  | nil => exact serial
  | cons j rest ih =>
    obtain ⟨next, here, later⟩ := serial
    obtain ⟨sameTimes, sameReply⟩ := same j List.mem_cons_self
    refine ⟨next, ?_, ih later fun k listed => same k (List.mem_cons_of_mem j listed)⟩
    rw [sameTimes, sameReply]
    exact here

theorem CellSerially.serially {s : Store} (unlimited : s.maxMem = 0)
    (serial : CellSerially key prog times reply order (s.stored key) final) :
    ∃ t, Serially key prog times reply order s t ∧ t.stored key = final := by
  induction order generalizing s with
  | nil => exact ⟨s, rfl, serial⟩
  | cons j rest ih =>
    obtain ⟨next, here, later⟩ := serial
    obtain ⟨mid, advances, stored, unlimited'⟩ := advance_of_cellAdvance unlimited here
    rw [← stored] at later
    obtain ⟨t, serially, final⟩ := ih unlimited' later
    exact ⟨t, ⟨mid, advances, serially⟩, final⟩

end Serially

/-- A command in the middle, run on the entry that the finished ones have left, is where it
is: the entry is the one it has read, or it has found none and none is there. -/
def InPlace (key : Key) (prog : ι → CmdProg) (w : RmwWorld ι) (left : Option Entry) (i : ι) : Prop :=
  (∃ e, w.store.stored key = some e ∧ left = some e
    ∧ cellAdvance key (prog i) (w.times i) (some e) = some (some e, w.prog i))
  ∨ w.store.stored key = none
    ∧ cellAdvance key (prog i) (w.times i) left = some (none, w.prog i)
    ∧ cellAdvance key (prog i) (w.times i) none = some (none, w.prog i)

/-- The finished commands, in this order, leave `left`, which the key's entry shows from now
on; the others have not called yet, or are in place. -/
structure Replayed (key : Key) (prog : ι → CmdProg) (start : Option Entry) (w : RmwWorld ι)
    (order : List ι) (left : Option Entry) : Prop where
  unlimited : w.store.maxMem = 0
  reads : ∀ i, ReadsFirst (w.prog i)
  nodup : order.Nodup
  finished : ∀ i, i ∈ order ↔ (w.prog i).isReply = true
  serial : CellSerially key prog w.times w.prog order start left
  agree : ∀ t, w.clock ≤ t → (look t left).current = (look t (w.store.stored key)).current
  fresh : ∀ i, w.called i = false →
    ∀ cell, cellAdvance key (prog i) (w.times i) cell = some (cell, w.prog i)
  inPlace : ∀ i, w.Midway i → InPlace key prog w left i

variable {start : Option Entry} {w next : RmwWorld ι} {order : List ι} {left : Option Entry}
  {i : ι} {now : Time}

theorem inPlace_congr {j : ι} (inPlace : InPlace key prog w left j)
    (stored : next.store.stored key = w.store.stored key) (sameTimes : next.times j = w.times j)
    (sameProg : next.prog j = w.prog j) : InPlace key prog next left j := by
  unfold InPlace at inPlace ⊢
  rw [stored, sameTimes, sameProg]
  exact inPlace

variable [DecidableEq ι] {rest : CmdProg}

structure Moved (w next : RmwWorld ι) (i : ι) (now : Time) (rest : CmdProg) : Prop where
  prog : next.prog = Function.update w.prog i rest
  times : next.times = Function.update w.times i (w.times i ++ [now])
  called : ∀ j, j ≠ i → next.called j = w.called j
  clock : next.clock = now
  passes : w.clock ≤ now

theorem Moved.midway (moved : Moved w next i now rest) {j : ι} (apart : j ≠ i) :
    next.Midway j ↔ w.Midway j := by
  unfold Midway
  rw [moved.called j apart, moved.prog, Function.update_of_ne apart]

theorem Moved.reads (moved : Moved w next i now rest) (before : ∀ j, ReadsFirst (w.prog j))
    (reads : ReadsFirst rest) (j : ι) : ReadsFirst (next.prog j) := by
  rw [moved.prog]
  by_cases same : j = i
  · subst same
    simpa using reads
  · simpa [same] using before j

theorem Moved.fresh (moved : Moved w next i now rest)
    (before : ∀ j, w.called j = false →
      ∀ cell, cellAdvance key (prog j) (w.times j) cell = some (cell, w.prog j))
    (own : next.called i = false →
      ∀ cell, cellAdvance key (prog i) (w.times i ++ [now]) cell = some (cell, rest))
    (j : ι) (uncalled : next.called j = false) (cell : Option Entry) :
    cellAdvance key (prog j) (next.times j) cell = some (cell, next.prog j) := by
  rw [moved.times, moved.prog]
  by_cases same : j = i
  · subst same
    simpa using own uncalled cell
  · rw [moved.called j same] at uncalled
    simpa [same] using before j uncalled cell

theorem Replayed.serial_next (replayed : Replayed key prog start w order left)
    (moved : Moved w next i now rest) (unfinished : (w.prog i).isReply = false) :
    CellSerially key prog next.times next.prog order start left := by
  refine replayed.serial.congr fun j listed => ?_
  have apart : j ≠ i := by
    rintro rfl
    rw [(replayed.finished j).mp listed] at unfinished
    cases unfinished
  rw [moved.times, moved.prog, Function.update_of_ne apart, Function.update_of_ne apart]
  exact ⟨rfl, rfl⟩

theorem Replayed.goes_on (replayed : Replayed key prog start w order left)
    (moved : Moved w next i now rest) (unlimited : next.store.maxMem = 0) (reads : ReadsFirst rest)
    (unfinished : (w.prog i).isReply = false) (goes : rest.isReply = false)
    (agree : ∀ t, now ≤ t → (look t left).current = (look t (next.store.stored key)).current)
    (fresh : next.called i = false →
      ∀ cell, cellAdvance key (prog i) (w.times i ++ [now]) cell = some (cell, rest))
    (own : next.called i = true → InPlace key prog next left i)
    (others : ∀ j, j ≠ i → w.Midway j → next.store.stored key = w.store.stored key) :
    Replayed key prog start next order left where
  unlimited := unlimited
  reads := moved.reads replayed.reads reads
  nodup := replayed.nodup
  finished j := by
    rw [replayed.finished, moved.prog]
    by_cases same : j = i
    · simp [same, unfinished, goes]
    · simp [same]
  serial := replayed.serial_next moved unfinished
  agree := by
    rw [moved.clock]
    exact agree
  fresh := moved.fresh replayed.fresh fresh
  inPlace j midway := by
    by_cases same : j = i
    · subst same
      exact own midway.1
    · have before := (moved.midway same).mp midway
      refine inPlace_congr (replayed.inPlace j before) (others j same before) ?_ ?_
      · rw [moved.times, Function.update_of_ne same]
      · rw [moved.prog, Function.update_of_ne same]

theorem Replayed.finishes (replayed : Replayed key prog start w order left)
    (moved : Moved w next i now rest) (unlimited : next.store.maxMem = 0)
    (unfinished : (w.prog i).isReply = false) (ends : rest.isReply = true) {final : Option Entry}
    (last : cellAdvance key (prog i) (w.times i ++ [now]) left = some (final, rest))
    (agree : ∀ t, now ≤ t → (look t final).current = (look t (next.store.stored key)).current)
    (fresh : next.called i = false →
      ∀ cell, cellAdvance key (prog i) (w.times i ++ [now]) cell = some (cell, rest))
    (others : ∀ j, j ≠ i → w.Midway j → next.store.stored key = w.store.stored key
      ∧ (final = left ∨ w.store.stored key = none ∧ final = none)) :
    Replayed key prog start next (order ++ [i]) final where
  unlimited := unlimited
  reads := moved.reads replayed.reads (readsFirst_of_isReply ends)
  nodup := by
    refine List.nodup_append.mpr ⟨replayed.nodup, List.nodup_singleton i, ?_⟩
    rintro j listed k last rfl
    obtain rfl := List.mem_singleton.mp last
    rw [(replayed.finished j).mp listed] at unfinished
    cases unfinished
  finished j := by
    rw [List.mem_append, List.mem_singleton, replayed.finished, moved.prog]
    by_cases same : j = i
    · simp [same, ends]
    · simp [same]
  serial := by
    refine (replayed.serial_next moved unfinished).concat ?_
    rw [moved.times, moved.prog, Function.update_self, Function.update_self]
    exact last
  agree := by
    rw [moved.clock]
    exact agree
  fresh := moved.fresh replayed.fresh fresh
  inPlace j midway := by
    by_cases same : j = i
    · subst same
      have going := midway.2
      rw [moved.prog, Function.update_self, ends] at going
      cases going
    · have before := (moved.midway same).mp midway
      obtain ⟨stored, kept⟩ := others j same before
      have placed := inPlace_congr (replayed.inPlace j before) stored
        (by rw [moved.times, Function.update_of_ne same])
        (by rw [moved.prog, Function.update_of_ne same])
      rcases kept with rfl | ⟨gone, rfl⟩
      · exact placed
      · -- The entry is gone: what is left is none, on which the command is in place too.
        rcases placed with ⟨e, there, -⟩ | ⟨absent, -, onNone⟩
        · rw [stored, gone] at there
          cases there
        · exact .inr ⟨absent, onNone, onNone⟩

/-! ## Steps -/

theorem eq_some_of_current {cell : Option Entry} {t : Time} {e : Entry}
    (live : (look t cell).current = some e) : cell = some e := by
  cases cell with
  | none => cases live
  | some e' =>
    simp only [look] at live
    split at live
    · cases live
    · exact live

theorem current_current {cell : Option Entry} {t : Time} (later : now ≤ t) :
    (look t (look now cell).current).current = (look t cell).current := by
  cases cell with
  | none => rfl
  | some e =>
    by_cases gone : isExpired now e = true
    · have still : isExpired t e = true := by
        simp only [isExpired, decide_eq_true_eq] at gone ⊢
        exact ⟨gone.1, gone.2.trans_le later⟩
      simp [look, gone, still, Look.current]
    · simp [look, gone, Look.current]

theorem Replayed.clock (replayed : Replayed key prog start w order left)
    {after : Time → CmdProg} (at_ : w.prog i = .clock after) (passes : w.clock ≤ now) :
    ∃ order' left', Replayed key prog start (w.goOn i now (after now)) order' left' := by
  have moved : Moved w (w.goOn i now (after now)) i now (after now) :=
    ⟨rfl, rfl, fun _ _ => rfl, rfl, passes⟩
  have unfinished : (w.prog i).isReply = false := by rw [at_]; rfl
  have reads : ReadsFirst (after now) := by
    have before := replayed.reads i
    rw [at_] at before
    cases before with
    | clock _ later => exact later now
  have agree (t : Time) (later : now ≤ t) := replayed.agree t (passes.trans later)
  -- The reading goes on from wherever the command is.
  have goesOn {cell mid : Option Entry}
      (here : cellAdvance key (prog i) (w.times i) cell = some (mid, w.prog i)) :
      cellAdvance key (prog i) (w.times i ++ [now]) cell = some (mid, after now) := by
    rw [at_] at here
    exact cellAdvance_concat here
  have fresh (uncalled : w.called i = false) (cell : Option Entry) := goesOn (replayed.fresh i uncalled cell)
  have times : (w.goOn i now (after now)).times i = w.times i ++ [now] := Function.update_self ..
  have rest : (w.goOn i now (after now)).prog i = after now := Function.update_self ..
  have inPlace (called : w.called i = true) := replayed.inPlace i ⟨called, unfinished⟩
  cases ends : (after now).isReply with
  | false =>
    refine ⟨order, left, replayed.goes_on moved replayed.unlimited reads unfinished ends agree fresh
      (fun called => ?_) fun _ _ _ => rfl⟩
    unfold InPlace
    rw [times, rest]
    rcases inPlace called with ⟨e, there, same, here⟩ | ⟨absent, onLeft, onNone⟩
    · exact .inl ⟨e, there, same, goesOn here⟩
    · exact .inr ⟨absent, goesOn onLeft, goesOn onNone⟩
  | true =>
    cases called : w.called i with
    | false =>
      exact ⟨order ++ [i], left, replayed.finishes moved replayed.unlimited unfinished ends
        (fresh called left) agree fresh fun _ _ _ => ⟨rfl, .inl rfl⟩⟩
    | true =>
      rcases inPlace called with ⟨e, there, rfl, here⟩ | ⟨absent, onLeft, onNone⟩
      · exact ⟨order ++ [i], some e, replayed.finishes moved replayed.unlimited unfinished ends
          (goesOn here) agree fresh fun _ _ _ => ⟨rfl, .inl rfl⟩⟩
      · refine ⟨order ++ [i], none, replayed.finishes moved replayed.unlimited unfinished ends
          (goesOn onLeft) (fun t _ => ?_) fresh fun _ _ _ => ⟨rfl, .inr ⟨absent, rfl⟩⟩⟩
        exact (congrArg (fun cell => (look t cell).current) absent).symm

theorem Replayed.call (replayed : Replayed key prog start w order left) {c : KeyCall}
    {after : Except StoreErr c.Result → CmdProg} (at_ : w.prog i = .call c after)
    (stepped : w.step key (i, now) = some next) (undisturbed : w.Undisturbed key (i, now)) :
    ∃ order' left', Replayed key prog start next order' left' := by
  obtain ⟨storedAfter, answered⟩ :=
    w.store.run_fits now key (c.op now key) (.inr (.inl replayed.unlimited))
  have stored := storedAfter key
  have unlimited := (w.store.run_frame now key (c.op now key)).1.trans replayed.unlimited
  rw [if_pos rfl] at stored
  simp only [Undisturbed, UndisturbedAt, at_] at undisturbed
  simp only [step, at_, Option.ite_none_right_eq_some, Option.some.injEq] at stepped
  obtain ⟨passes, rfl⟩ := stepped
  unfold Store.lookup at stored answered undisturbed
  generalize w.store.run now key (c.op now key) = done at stored answered unlimited undisturbed ⊢
  obtain ⟨quiet, notThen⟩ := undisturbed
  generalize entry : w.store.stored key = cell at stored answered quiet notThen
  -- What the call makes of an entry that looks the same to it.
  have calls {from_ mid : Option Entry}
      (here : cellAdvance key (prog i) (w.times i) from_ = some (mid, w.prog i))
      (same : (look now mid).current = (look now cell).current) :
      cellAdvance key (prog i) (w.times i ++ [now]) from_ = some (done.1.stored key, after done.2) := by
    rw [at_] at here
    obtain ⟨sameAfter, sameAnswer⟩ := c.op_congr key same
    rw [cellAdvance_concat here, cellStep, sameAfter, sameAnswer, ← stored, ← answered]
  have agreeNow : (look now left).current = (look now cell).current := by
    rw [← entry]
    exact replayed.agree now passes
  have unfinished : (w.prog i).isReply = false := by rw [at_]; rfl
  have inPlace (called : w.called i = true) := replayed.inPlace i ⟨called, unfinished⟩
  generalize world : ({ w.goOn i now (after done.2) with
    store := done.1, called := Function.update w.called i true } : RmwWorld ι) = next
  have moved : Moved w next i now (after done.2) := by
    subst world
    exact ⟨rfl, rfl, fun j apart => Function.update_of_ne apart .., rfl, passes⟩
  have called : next.called i = true := by
    subst world
    exact Function.update_self ..
  have nextStore : next.store = done.1 := by rw [← world]
  have times : next.times i = w.times i ++ [now] := by rw [moved.times, Function.update_self]
  have rest : next.prog i = after done.2 := by rw [moved.prog, Function.update_self]
  -- The command on what is left does the same and leaves the same.
  have onLeft : cellAdvance key (prog i) (w.times i ++ [now]) left
      = some (done.1.stored key, after done.2) := by
    cases before : w.called i with
    | false => exact calls (replayed.fresh i before left) agreeNow
    | true =>
      rcases inPlace before with ⟨e, there, rfl, here⟩ | ⟨absent, here, -⟩
      · exact calls here agreeNow
      · rw [entry] at absent
        exact calls here (by rw [absent])
  cases ends : (after done.2).isReply with
  | true =>
    refine ⟨order ++ [i], done.1.stored key, replayed.finishes moved (by rw [nextStore, unlimited])
      unfinished ends onLeft (fun t _ => by rw [nextStore]) (fun uncalled => ?_) fun j apart midway => ?_⟩
    · rw [called] at uncalled
      cases uncalled
    · obtain ⟨unchanged, settled⟩ := quiet ⟨j, midway, .inl apart⟩
      rw [nextStore, entry, unchanged]
      refine ⟨rfl, ?_⟩
      cases cell with
      | none => exact .inr ⟨rfl, rfl⟩
      | some e => exact .inl (eq_some_of_current (agreeNow.trans settled)).symm
  | false =>
    have before := replayed.reads i
    rw [at_] at before
    cases before with
    | last _ _ last =>
      rw [last] at ends
      cases ends
    | read _ _ reads later =>
      have kept : done.1.stored key = (look now cell).current :=
        stored.trans (KeyCall.after_of_reads reads notThen)
      refine ⟨order, left, replayed.goes_on moved (by rw [nextStore, unlimited]) (later _) unfinished
        ends (fun t later => ?_) (fun uncalled => ?_) (fun _ => ?_) fun j apart midway => ?_⟩
      · rw [nextStore, kept, current_current later, ← entry]
        exact replayed.agree t (passes.trans later)
      · rw [called] at uncalled
        cases uncalled
      · unfold InPlace
        rw [nextStore, times, rest]
        cases found : done.1.stored key with
        | some e =>
          rw [found] at kept onLeft
          have there := eq_some_of_current (agreeNow.trans kept.symm)
          rw [there] at onLeft
          exact .inl ⟨e, rfl, there, onLeft⟩
        | none =>
          rw [found] at kept onLeft
          refine .inr ⟨rfl, onLeft, ?_⟩
          cases before : w.called i with
          | false =>
            have onNone := calls (replayed.fresh i before none) kept
            rwa [found] at onNone
          | true =>
            -- In the middle of its calls it has found none before, or the entry is unchanged.
            obtain ⟨unchanged, -⟩ := quiet ⟨i, ⟨before, unfinished⟩, .inr ends⟩
            rw [found] at unchanged
            rcases inPlace before with ⟨e, there, -⟩ | ⟨-, -, here⟩
            · rw [entry, ← unchanged] at there
              cases there
            · have onNone := calls here (by rw [← unchanged])
              rwa [found] at onNone
      · rw [nextStore, entry]
        exact (quiet ⟨j, midway, .inl apart⟩).1

theorem Replayed.step {move : ι × Time} (replayed : Replayed key prog start w order left)
    (stepped : w.step key move = some next) (undisturbed : w.Undisturbed key move) :
    ∃ order' left', Replayed key prog start next order' left' := by
  obtain ⟨i, now⟩ := move
  cases at_ : w.prog i with
  | reply r => simp [RmwWorld.step, at_] at stepped
  | clock after =>
    simp only [RmwWorld.step, at_, Option.ite_none_right_eq_some, Option.some.injEq] at stepped
    obtain ⟨passes, rfl⟩ := stepped
    exact replayed.clock at_ passes
  | call c after => exact replayed.call at_ stepped undisturbed

omit [DecidableEq ι] in
theorem replayed_start [Fintype ι] {s : Store} (unlimited : s.maxMem = 0)
    (reads : ∀ i, ReadsFirst (prog i)) (now : Time) :
    ∃ order, Replayed key prog (s.stored key) (.start s now prog) order (s.stored key) := by
  refine ⟨(Finset.univ.filter fun i => (prog i).isReply = true).toList, ?_⟩
  have serial (order : List ι) :
      CellSerially key prog (fun _ => []) prog order (s.stored key) (s.stored key) := by
    induction order with
    | nil => rfl
    | cons i rest ih => exact ⟨_, cellAdvance_nil, ih⟩
  exact
    { unlimited := unlimited
      reads := reads
      nodup := Finset.nodup_toList _
      finished := fun i => by simp [RmwWorld.start]
      serial := serial _
      agree := fun _ _ => rfl
      fresh := fun _ _ _ => cellAdvance_nil
      inPlace := fun _ midway => by cases midway.1 }

/-- Any number of commands on one key: when all are done, the replies and the final value are
those of the commands in some order, one at a time. -/
theorem rmw_serializable [Fintype ι] (fl : FloatOps) (key : Key) (commands : ι → RmwCommand)
    (s : Store) (unlimited : s.maxMem = 0) (now : Time) (moves : List (ι × Time)) (w : RmwWorld ι)
    (ran : Machine.run (RmwWorld.step key) (.start s now fun i => (commands i).prog fl) moves = some w)
    (undisturbed : Machine.Guarded (RmwWorld.step key) (RmwWorld.Undisturbed key)
      (.start s now fun i => (commands i).prog fl) moves)
    (done : ∀ i, (w.prog i).isReply = true) :
    ∃ order t, order.Nodup ∧ (∀ i, i ∈ order)
      ∧ Serially key (fun i => (commands i).prog fl) w.times w.prog order s t
      ∧ (t.lookup w.clock key).current = (w.store.lookup w.clock key).current := by
  have keeps (w : RmwWorld ι) (move : ι × Time) (next : RmwWorld ι)
      (before : ∃ order left,
        Replayed key (fun i => (commands i).prog fl) (s.stored key) w order left)
      (quiet : w.Undisturbed key move) (stepped : w.step key move = some next) :
      ∃ order left, Replayed key (fun i => (commands i).prog fl) (s.stored key) next order left := by
    obtain ⟨order, left, replayed⟩ := before
    exact replayed.step stepped quiet
  obtain ⟨order₀, first⟩ : ∃ order₀, Replayed key (fun i => (commands i).prog fl) (s.stored key)
      (.start s now fun i => (commands i).prog fl) order₀ (s.stored key) :=
    replayed_start unlimited (fun i => (commands i).readsFirst fl) now
  obtain ⟨order, left, replayed⟩ := Machine.run_invariant keeps ⟨order₀, _, first⟩ undisturbed ran
  obtain ⟨t, serially, final⟩ := replayed.serial.serially unlimited
  refine ⟨order, t, replayed.nodup, fun i => (replayed.finished i).mpr (done i), serially, ?_⟩
  unfold Store.lookup
  rw [final]
  exact replayed.agree w.clock (le_refl _)

/-- The store the runs below start from: one key with the text `10`. -/
def rmwStart : Store :=
  (newStore .noeviction 0 sortedOracle).replaceEntry (ascii "k") none
    { value := .string (ascii "10") }

def replied (w : RmwWorld ι) (i : ι) : Option Reply :=
  match w.prog i with
  | .reply r => some r
  | _ => none

/-- `INCRBYFLOAT k 5` and, between its two calls, `GET k`. -/
def incrThenGet (second : Bool) : RmwCommand :=
  if second then .get else .incrByFloat (ascii "5")

theorem get_amid_incrByFloat_serializable :
    ∃ w, Machine.run (RmwWorld.step (ascii "k"))
        (.start rmwStart 1 fun i => (incrThenGet i).prog integerFloats)
        [(false, 1), (true, 2), (false, 3)] = some w
      ∧ w.replied false = some (.bulk (ascii "15")) ∧ w.replied true = some (.bulk (ascii "10"))
      ∧ ∃ order t, order.Nodup ∧ (∀ i, i ∈ order)
        ∧ Serially (ascii "k") (fun i => (incrThenGet i).prog integerFloats) w.times w.prog
          order rmwStart t
        ∧ (t.lookup w.clock (ascii "k")).current = (w.store.lookup w.clock (ascii "k")).current := by
  refine ⟨_, Machine.ran (by decide +kernel), by decide +kernel, by decide +kernel, ?_⟩
  exact rmw_serializable integerFloats (ascii "k") incrThenGet rmwStart (by decide +kernel) 1 _ _
    (Machine.ran _) (by decide +kernel) (by decide +kernel)

/-- Two `GETDEL k` that both read the key before either deletes it: both answer its value, as
no order of the two does. -/
theorem getDel_answers_twice :
    ∃ w, Machine.run (RmwWorld.step (ascii "k"))
        (.start rmwStart 1 fun _ => RmwCommand.getDel.prog integerFloats)
        [(false, 1), (true, 1), (false, 1), (true, 1)] = some w
      ∧ (∀ i, w.replied i = some (.bulk (ascii "10")))
      ∧ ¬ ∃ order t, order.Nodup ∧ (∀ i, i ∈ order)
        ∧ Serially (ascii "k") (fun _ => RmwCommand.getDel.prog integerFloats) w.times w.prog
          order rmwStart t := by
  obtain ⟨w, ran, both, times⟩ : ∃ w, Machine.run (RmwWorld.step (ascii "k"))
        (.start rmwStart 1 fun _ => RmwCommand.getDel.prog integerFloats)
        [(false, 1), (true, 1), (false, 1), (true, 1)] = some w
      ∧ (∀ i, w.replied i = some (.bulk (ascii "10"))) ∧ (∀ i, w.times i = [1, 1]) :=
    Machine.exists_run (by decide +kernel)
  refine ⟨w, ran, both, ?_⟩
  rintro ⟨order, t, nodup, all, serially⟩
  -- after the first of the two the key is gone, and the second has no second call to make
  have second : ((RmwCommand.getDel.prog integerFloats).advance (ascii "k") [1, 1] rmwStart).bind
      (fun done => ((RmwCommand.getDel.prog integerFloats).advance (ascii "k") [1, 1] done.1).map
        fun _ => ()) = none := by decide +kernel
  have size : 2 ≤ order.length := by
    have card := Finset.card_le_card (fun i _ => List.mem_toFinset.mpr (all i) :
      (Finset.univ : Finset Bool) ⊆ order.toFinset)
    exact card.trans (List.toFinset_card_le order)
  rcases order with _ | ⟨i, _ | ⟨j, rest⟩⟩
  · simp at size
  · simp at size
  obtain ⟨mid, first, next, again, _⟩ := serially
  rw [times] at first again
  rw [first, Option.bind_some, again] at second
  cases second

end RmwWorld

end SuperCache
