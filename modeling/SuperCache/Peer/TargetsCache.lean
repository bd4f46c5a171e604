import SuperCache.Lib.Machine
import SuperCache.Peer.Links

/-! # The cached choice of links

`replicationTargets` loads the generation, then the cache, and computes and
stores the choice of links when the cache is of another generation.  Each of
these is a step of its own, and the links may change between any two.  What a
call returns was the choice at some moment of the call, unless the generation has
come round to one that is still in the cache.
-/

namespace SuperCache

open Lib

/-- `replTargets`: a choice of links, and the generation it was made for. -/
structure ReplTargets where
  gen : UInt64
  links : List OutPeer

/-- Where a call of `replicationTargets` stands. -/
inductive TargetsCall where
  | idle
  | loadedGen (gen : UInt64)
  | missed (gen : UInt64)
  | computed (gen : UInt64) (links : List OutPeer)
  | returned (links : List OutPeer)

def TargetsCall.isReturned : TargetsCall → Bool
  | .returned _ => true
  | _ => false

structure Mesh (ι : Type) where
  out : List OutPeer
  targetsGen : UInt64
  targetsCache : Option ReplTargets
  call : ι → TargetsCall

inductive MeshMove (ι : Type) where
  | loadGen (i : ι)
  | loadCache (i : ι)
  | compute (i : ι)
  | storeCache (i : ι)
  | registerOut (l : OutPeer)
  | unregisterOut (addr : Bytes)
  | unregisterLink (target : OutPeer)

def MeshMove.changesLinks {ι : Type} : MeshMove ι → Bool
  | .registerOut _ | .unregisterOut _ | .unregisterLink _ => true
  | .loadGen _ | .loadCache _ | .compute _ | .storeCache _ => false

namespace Mesh

variable {ι : Type}

def changed (mesh : Mesh ι) (out : List OutPeer) : Mesh ι :=
  { mesh with out := out, targetsGen := mesh.targetsGen + 1 }

/-- The links have changed at most `count` times from generation `gen` to generation `now`, and
if they have not changed, `fact` holds. -/
def Since (count : Nat) (now gen : UInt64) (fact : Prop) : Prop :=
  ∃ age ≤ count, now = gen + UInt64.ofNat age ∧ (age = 0 → fact)

section Since

variable {count : Nat} {now gen : UInt64} {fact fact' : Prop}

theorem Since.loaded (count : Nat) (now : UInt64) : Since count now now True :=
  ⟨0, Nat.zero_le count, (UInt64.add_zero now).symm, fun _ => trivial⟩

theorem Since.changed (since : Since count now gen fact) : Since (count + 1) (now + 1) gen fact' := by
  obtain ⟨age, young, rfl, -⟩ := since
  refine ⟨age + 1, Nat.succ_le_succ young, ?_, nofun⟩
  rw [UInt64.ofNat_add, UInt64.add_assoc]
  rfl

theorem Since.of_eq (since : Since count now gen fact) (bound : count < 2 ^ 64) (same : gen = now) :
    fact := by
  obtain ⟨age, young, gens, holds⟩ := since
  apply holds
  have none : UInt64.ofNat age = 0 := UInt64.add_right_inj gen |>.mp (by rw [← gens, same, UInt64.add_zero])
  rw [← UInt64.toNat_inj, UInt64.toNat_ofNat', Nat.mod_eq_of_lt (by omega)] at none
  exact none

end Since

structure Sound (count : Nat) (mesh : Mesh ι) : Prop where
  cached : ∀ c, mesh.targetsCache = some c →
    Since count mesh.targetsGen c.gen (c.links = computeReplicationTargets mesh.out)
  loaded : ∀ i gen, mesh.call i = .loadedGen gen → Since count mesh.targetsGen gen True
  missed : ∀ i gen, mesh.call i = .missed gen → Since count mesh.targetsGen gen True
  computed : ∀ i gen links, mesh.call i = .computed gen links →
    Since count mesh.targetsGen gen (links = computeReplicationTargets mesh.out)

structure Fresh (mesh : Mesh ι) : Prop where
  cache : mesh.targetsCache = none
  calls : ∀ i, mesh.call i = .idle

theorem Fresh.sound {mesh : Mesh ι} (fresh : mesh.Fresh) : mesh.Sound 0 := by
  constructor <;> simp [fresh.cache, fresh.calls]

variable [DecidableEq ι]

def at_ (mesh : Mesh ι) (i : ι) (phase : TargetsCall) : Mesh ι :=
  { mesh with call := Function.update mesh.call i phase }

def step (mesh : Mesh ι) : MeshMove ι → Option (Mesh ι)
  | .loadGen i =>
    match mesh.call i with
    | .idle => some (mesh.at_ i (.loadedGen mesh.targetsGen))
    | _ => none
  | .loadCache i =>
    match mesh.call i with
    | .loadedGen gen =>
      match mesh.targetsCache with
      | some c => some (mesh.at_ i (if c.gen = gen then .returned c.links else .missed gen))
      | none => some (mesh.at_ i (.missed gen))
    | _ => none
  | .compute i =>
    match mesh.call i with
    | .missed gen => some (mesh.at_ i (.computed gen (computeReplicationTargets mesh.out)))
    | _ => none
  | .storeCache i =>
    match mesh.call i with
    | .computed gen links =>
      some { mesh.at_ i (.returned links) with targetsCache := some { gen, links } }
    | _ => none
  | .registerOut l => some (mesh.changed (mesh.out ++ [l]))
  | .unregisterOut addr =>
    some (mesh.changed (mesh.out.filter fun p => p.inbound || p.addr ≠ addr))
  | .unregisterLink target => some (mesh.changed (mesh.out.filter fun p => p ≠ target))

/-! ## One step -/

variable {mesh next : Mesh ι} {i : ι}

inductive Steps (mesh : Mesh ι) : MeshMove ι → Mesh ι → Prop
  | change {move} (changes : move.changesLinks = true) (out : List OutPeer) :
      Steps mesh move (mesh.changed out)
  | loadGen (i : ι) (idle : mesh.call i = .idle) :
      Steps mesh (.loadGen i) (mesh.at_ i (.loadedGen mesh.targetsGen))
  | hit (i : ι) (c : ReplTargets) (loaded : mesh.call i = .loadedGen c.gen)
      (cached : mesh.targetsCache = some c) :
      Steps mesh (.loadCache i) (mesh.at_ i (.returned c.links))
  | miss (i : ι) (gen : UInt64) (loaded : mesh.call i = .loadedGen gen) :
      Steps mesh (.loadCache i) (mesh.at_ i (.missed gen))
  | compute (i : ι) (gen : UInt64) (missed : mesh.call i = .missed gen) :
      Steps mesh (.compute i) (mesh.at_ i (.computed gen (computeReplicationTargets mesh.out)))
  | store (i : ι) (gen : UInt64) (links : List OutPeer) (computed : mesh.call i = .computed gen links) :
      Steps mesh (.storeCache i)
        { mesh.at_ i (.returned links) with targetsCache := some { gen, links } }

theorem step_cases {move : MeshMove ι} (stepped : mesh.step move = some next) :
    Steps mesh move next := by
  revert stepped
  fun_cases Mesh.step mesh move <;> rintro ⟨⟩
  · next i idle => exact .loadGen i idle
  · next i gen loaded c cached =>
    split
    · next same => exact .hit i c (same ▸ loaded) cached
    · exact .miss i gen loaded
  · next i gen loaded none => exact .miss i gen loaded
  · next i gen missed => exact .compute i gen missed
  · next i gen links computed => exact .store i gen links computed
  all_goals exact .change rfl _

/-! ## Selections in the cache -/

theorem call_at (mesh : Mesh ι) (i j : ι) (phase : TargetsCall) :
    (mesh.at_ i phase).call j = if j = i then phase else mesh.call j := by
  show Function.update mesh.call i phase j = _
  rw [Function.update_apply]

theorem Sound.step {count : Nat} {move : MeshMove ι} (sound : mesh.Sound count)
    (stepped : mesh.step move = some next) :
    next.Sound (count + if move.changesLinks then 1 else 0) := by
  obtain ⟨cached, loaded, missed, computed⟩ := sound
  cases step_cases stepped with
  | change changes out =>
    rw [if_pos changes]
    exact {
      cached := fun c here => (cached c here).changed
      loaded := fun i gen here => (loaded i gen here).changed
      missed := fun i gen here => (missed i gen here).changed
      computed := fun i gen links here => (computed i gen links here).changed }
  | loadGen | hit | miss | compute | store =>
    constructor <;> grind [call_at, Mesh.at_, Since.loaded, MeshMove.changesLinks]

/-! ## One call -/

/-- The links were the choice at some moment since `mid`, before call `i` returned. -/
def Seen (mid : Mesh ι) (i : ι) (labels : List (MeshMove ι)) (links : List OutPeer) : Prop :=
  Machine.Passes Mesh.step mid labels fun moment =>
    (moment.call i).isReturned = false ∧ links = computeReplicationTargets moment.out

/-- What is known of a call while call `i`, which loaded the generation `gen`, is
under way; `own` says that it is call `i` itself. -/
def Watched (gen : UInt64) (seen : List OutPeer → Prop) (own : Prop) : TargetsCall → Prop
  | .idle => ¬ own
  | .loadedGen g | .missed g => own → g = gen
  | .computed g links => (own → g = gen) ∧ (g = gen → seen links)
  | .returned _ => ¬ own

theorem Watched.mono {gen : UInt64} {seen seen' : List OutPeer → Prop} {own : Prop}
    {phase : TargetsCall} (watched : Watched gen seen own phase)
    (more : ∀ links, seen links → seen' links) : Watched gen seen' own phase := by
  cases phase with
  | computed g links => exact ⟨watched.1, fun same => more links (watched.2 same)⟩
  | idle | loadedGen | missed | returned => exact watched

/-- Since it loaded the generation of `mid`, call `i` has returned what it saw, or
it finds under that generation only what was the choice in the meantime. -/
def Following (mid : Mesh ι) (i : ι) (labels : List (MeshMove ι)) (mesh : Mesh ι) : Prop :=
  (∃ links, mesh.call i = .returned links ∧ mid.Seen i labels links)
    ∨ (Machine.run Mesh.step mid labels = some mesh ∧ (mesh.call i).isReturned = false
      ∧ (∀ c, mesh.targetsCache = some c → c.gen = mid.targetsGen → mid.Seen i labels c.links)
      ∧ ∀ j, Watched mid.targetsGen (mid.Seen i labels) (j = i) (mesh.call j))

theorem Seen.append {mid : Mesh ι} {labels : List (MeshMove ι)} {links : List OutPeer}
    (seen : mid.Seen i labels links) (move : MeshMove ι) : mid.Seen i (labels ++ [move]) links :=
  Machine.Passes.append seen [move]

theorem returned_stays {links : List OutPeer} {move : MeshMove ι}
    (returned : mesh.call i = .returned links) (stepped : mesh.step move = some next) :
    next.call i = .returned links := by
  cases step_cases stepped with
  | change changes out => exact returned
  | loadGen | hit | miss | compute | store => grind [call_at]

theorem Following.moved {mid : Mesh ι} {labels : List (MeshMove ι)} {move : MeshMove ι} {j : ι}
    {phase : TargetsCall} {cache : Option ReplTargets}
    (ran : Machine.run Mesh.step mid (labels ++ [move])
      = some { mesh.at_ j phase with targetsCache := cache })
    (cached : ∀ c, cache = some c → c.gen = mid.targetsGen →
      mid.Seen i (labels ++ [move]) c.links)
    (underway : (mesh.call i).isReturned = false)
    (calls : ∀ j, Watched mid.targetsGen (mid.Seen i labels) (j = i) (mesh.call j))
    (watched : Watched mid.targetsGen (mid.Seen i (labels ++ [move])) (j = i) phase) :
    mid.Following i (labels ++ [move]) { mesh.at_ j phase with targetsCache := cache } := by
  refine .inr ⟨ran, ?_, cached, fun k => ?_⟩
  · show ((mesh.at_ j phase).call i).isReturned = false
    rw [call_at]
    split
    · next own =>
      cases phase with
      | returned links => exact absurd own.symm watched
      | idle | loadedGen | missed | computed => rfl
    · exact underway
  · show Watched _ _ _ ((mesh.at_ j phase).call k)
    rw [call_at]
    split
    · next same =>
      subst same
      exact watched
    · exact (calls k).mono fun links seen => seen.append move

theorem Following.step {mid : Mesh ι} {labels : List (MeshMove ι)} {move : MeshMove ι}
    (following : mid.Following i labels mesh) (stepped : mesh.step move = some next) :
    mid.Following i (labels ++ [move]) next := by
  obtain ⟨links, returned, seen⟩ | ⟨ran, underway, cached, calls⟩ := following
  · exact .inl ⟨links, returned_stays returned stepped, seen.append move⟩
  have ran' : Machine.run Mesh.step mid (labels ++ [move]) = some next :=
    Machine.run_concat ran stepped
  have cached' (c : ReplTargets) (here : mesh.targetsCache = some c)
      (same : c.gen = mid.targetsGen) : mid.Seen i (labels ++ [move]) c.links :=
    (cached c here same).append move
  have now : mid.Seen i labels (computeReplicationTargets mesh.out) :=
    Machine.Passes.here ran ⟨underway, rfl⟩
  cases step_cases stepped with
  | change changes out =>
    exact .inr ⟨ran', underway, cached', fun j => (calls j).mono fun links seen => seen.append _⟩
  | loadGen j idle =>
    refine Following.moved ran' cached' underway calls fun own => ?_
    have here := calls j
    rw [idle] at here
    exact absurd own here
  | hit j c loaded here =>
    have mine := calls j
    rw [loaded] at mine
    by_cases own : j = i
    · subst own
      exact .inl ⟨c.links, by rw [call_at, if_pos rfl], cached' c here (mine rfl)⟩
    · exact Following.moved ran' cached' underway calls own
  | miss j gen loaded =>
    have mine := calls j
    rw [loaded] at mine
    exact Following.moved ran' cached' underway calls mine
  | compute j gen missed =>
    have mine := calls j
    rw [missed] at mine
    exact Following.moved ran' cached' underway calls ⟨mine, fun _ => now.append _⟩
  | store j gen links computed =>
    have mine := calls j
    rw [computed] at mine
    by_cases own : j = i
    · subst own
      refine .inl ⟨links, ?_, (mine.2 (mine.1 rfl)).append _⟩
      show (mesh.at_ j (.returned links)).call j = _
      rw [call_at, if_pos rfl]
    · refine Following.moved ran' ?_ underway calls own
      rintro c ⟨⟩ same
      exact (mine.2 same).append _

theorem Sound.following {count : Nat} {mid : Mesh ι} (sound : mid.Sound count)
    (bound : count < 2 ^ 64) (idle : mid.call i = .idle) :
    mid.Following i [.loadGen i] (mid.at_ i (.loadedGen mid.targetsGen)) := by
  have ran : Machine.run Mesh.step mid [.loadGen i]
      = some (mid.at_ i (.loadedGen mid.targetsGen)) := by
    simp only [Machine.run, Mesh.step, idle, Option.bind_some]
  have first : mid.Seen i [.loadGen i] (computeReplicationTargets mid.out) :=
    ⟨[], _, mid, rfl, rfl, by rw [idle]; rfl, rfl⟩
  refine .inr ⟨ran, ?_, fun c cached same => ?_, fun j => ?_⟩
  · rw [call_at, if_pos rfl]
    rfl
  · rw [(sound.cached c cached).of_eq bound same]
    exact first
  · rw [call_at]
    split
    · exact fun _ => rfl
    · next other =>
      cases phase : mid.call j with
      | idle => exact other
      | loadedGen gen => exact fun own => absurd own other
      | missed gen => exact fun own => absurd own other
      | computed gen links =>
        refine ⟨fun own => absurd own other, fun same => ?_⟩
        rw [(sound.computed j gen links phase).of_eq bound same]
        exact first
      | returned links => exact other

/-- What a call returns was the choice of links at some moment after it began and
before it returned, provided the generation had not come round before it began. -/
theorem targets_never_stale (start mid final : Mesh ι) (earlier rest : List (MeshMove ι)) (i : ι)
    (links : List OutPeer) (fresh : start.Fresh)
    (bound : earlier.countP MeshMove.changesLinks < 2 ^ 64)
    (reached : Machine.run Mesh.step start earlier = some mid)
    (ran : Machine.run Mesh.step mid (.loadGen i :: rest) = some final)
    (returned : final.call i = .returned links) :
    ∃ during later moment, .loadGen i :: rest = during ++ later
      ∧ Machine.run Mesh.step mid during = some moment
      ∧ (moment.call i).isReturned = false ∧ links = computeReplicationTargets moment.out := by
  have sound : mid.Sound (earlier.countP MeshMove.changesLinks) := by
    refine Machine.run_history (fun labels mesh => mesh.Sound (labels.countP MeshMove.changesLinks))
      fresh.sound (fun labels mesh move next sound stepped => ?_) reached
    rw [List.countP_append, List.countP_singleton]
    exact sound.step stepped
  obtain ⟨first, stepped, ran⟩ := Machine.run_cons.mp ran
  simp only [Mesh.step] at stepped
  split at stepped
  · next idle =>
    cases stepped
    have following : mid.Following i (.loadGen i :: rest) final :=
      Machine.run_history (fun labels mesh => mid.Following i (.loadGen i :: labels) mesh)
        (sound.following bound idle) (fun _ _ _ _ following stepped => following.step stepped) ran
    obtain ⟨links', returned', seen⟩ | ⟨-, underway, -⟩ := following
    · rw [returned] at returned'
      cases returned'
      exact seen
    · rw [returned] at underway
      cases underway
  · cases stepped

def oneLink : Mesh (Fin 2) where
  out := [{ addr := ascii "h1", remoteID := ascii "n1", inbound := false, linkSeq := 1 }]
  targetsGen := 1
  targetsCache := none
  call := fun _ => .idle

/-- A second link comes up between the load of the generation and the selection;
the other call finds the selection under the old generation. -/
def raced : List (MeshMove (Fin 2)) :=
  [.loadCache 1, .compute 1,
    .registerOut { addr := ascii "h2", remoteID := ascii "n2", inbound := true, linkSeq := 2 },
    .loadCache 0, .compute 0, .storeCache 0]

theorem oneLink_never_stale : ∃ mid final links,
    Machine.run Mesh.step oneLink [.loadGen 1] = some mid
      ∧ Machine.run Mesh.step mid (.loadGen 0 :: raced) = some final
      ∧ final.call 0 = .returned links
      ∧ ∃ during later moment, .loadGen 0 :: raced = during ++ later
        ∧ Machine.run Mesh.step mid during = some moment
        ∧ (moment.call 0).isReturned = false ∧ links = computeReplicationTargets moment.out := by
  refine ⟨_, _, _, Machine.ran (by decide +kernel), Machine.ran (by decide +kernel), rfl, ?_⟩
  exact targets_never_stale oneLink _ _ [.loadGen 1] raced 0 _ ⟨rfl, fun _ => rfl⟩ (by decide)
    (Machine.ran _) (Machine.ran (by decide +kernel)) rfl

end Mesh

end SuperCache
