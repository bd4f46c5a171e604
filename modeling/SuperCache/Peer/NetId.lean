import Mathlib.Data.List.TakeWhile
import SuperCache.Lib.Bytes

/-! # The addresses of a machine

`internal/netid`: the address a node takes for its identity, and the two tests for whether an
address is one of this machine.  Interfaces are listed in any order and sorted by a sort that
need not be stable, so what `localCandidates` returns is any sorted arrangement.  The text of
an address and the parser and resolver of hosts are parameters.
-/

namespace SuperCache.NetId

open Lib

/-! ## `net.IP` -/

abbrev IP := Bytes

def v4InV6Prefix : Bytes := List.replicate 10 0 ++ [255, 255]

def to4 (ip : IP) : Option IP :=
  if ip.length = 4 then some ip
  else if ip.length = 16 ∧ ip.take 12 = v4InV6Prefix then some (ip.drop 12)
  else none

/-- `IP.Equal`, for which an IPv4 address and its IPv6 form are the same. -/
def equal (ip x : IP) : Bool :=
  if ip.length = x.length then ip = x
  else if ip.length = 4 ∧ x.length = 16 then x.take 12 = v4InV6Prefix ∧ ip = x.drop 12
  else if ip.length = 16 ∧ x.length = 4 then ip.take 12 = v4InV6Prefix ∧ ip.drop 12 = x
  else false

def byteAt (ip : IP) (i : Nat) : Nat := (ip.getD i 0).val

def testForm (four six : IP → Bool) (ip : IP) : Bool :=
  match to4 ip with
  | some ip4 => four ip4
  | none => ip.length = 16 ∧ six ip

def isLoopback : IP → Bool :=
  testForm (fun ip => byteAt ip 0 = 127) (fun ip => ip = List.replicate 15 0 ++ [1])

def isUnspecified (ip : IP) : Bool :=
  equal ip (v4InV6Prefix ++ [0, 0, 0, 0]) ∨ equal ip (List.replicate 16 0)

def isMulticast : IP → Bool :=
  testForm (fun ip => byteAt ip 0 / 16 = 14) (fun ip => byteAt ip 0 = 255)

def isLinkLocalMulticast : IP → Bool :=
  testForm (fun ip => byteAt ip 0 = 224 ∧ byteAt ip 1 = 0 ∧ byteAt ip 2 = 0)
    (fun ip => byteAt ip 0 = 255 ∧ byteAt ip 1 % 16 = 2)

def isLinkLocalUnicast : IP → Bool :=
  testForm (fun ip => byteAt ip 0 = 169 ∧ byteAt ip 1 = 254)
    (fun ip => byteAt ip 0 = 254 ∧ byteAt ip 1 / 64 = 2)

def isPrivate : IP → Bool :=
  testForm (fun ip => byteAt ip 0 = 10 ∨ byteAt ip 0 = 172 ∧ byteAt ip 1 / 16 = 1
      ∨ byteAt ip 0 = 192 ∧ byteAt ip 1 = 168)
    (fun ip => byteAt ip 0 / 2 = 126)

def normalize (ip : IP) : IP := (to4 ip).getD ip

/-! ## Candidates -/

inductive AddrClass where
  | privateV4
  | cgnatV4
  | ulaV6
  | globalV4
  | globalV6
  | unusable
deriving DecidableEq

def AddrClass.rank : AddrClass → Nat
  | .privateV4 => 0
  | .cgnatV4 => 1
  | .ulaV6 => 2
  | .globalV4 => 3
  | .globalV6 => 4
  | .unusable => 5

def classify (ip : IP) : AddrClass :=
  if isLoopback ip ∨ isLinkLocalUnicast ip ∨ isLinkLocalMulticast ip ∨ isMulticast ip
      ∨ isUnspecified ip then .unusable
  else
    match to4 ip with
    | some v4 =>
      if isPrivate v4 then .privateV4
      else if byteAt v4 0 = 100 ∧ byteAt v4 1 / 64 = 1 then .cgnatV4
      else .globalV4
    | none => if isPrivate ip then .ulaV6 else .globalV6

structure Candidate where
  ip : IP
  addrClass : AddrClass
deriving DecidableEq

/-- An interface.  Its addresses may fail to be read, and one of another type than the two
that are looked at, or without an IP, is `none`. -/
structure Interface where
  name : Bytes
  up : Bool
  loopback : Bool
  addrs : Option (List (Option IP))

def Interface.ips (iface : Interface) : List IP :=
  (iface.addrs.getD []).filterMap id

def bridgePrefixes : List Bytes :=
  ["docker", "br-", "veth", "cni", "flannel", "virbr", "vmnet", "tun", "tap", "kube"].map ascii

def isBridgeInterface (name : Bytes) : Bool :=
  bridgePrefixes.any fun front => front.isPrefixOf (toLower name)

/-- The candidates in the order in which `localCandidates` meets them. -/
def enumerate (ifaces : List Interface) : List Candidate :=
  ifaces.flatMap fun iface =>
    if iface.up = false ∨ iface.loopback = true ∨ isBridgeInterface iface.name = true then []
    else
      iface.ips.filterMap fun ip =>
        if classify ip = .unusable then none else some ⟨normalize ip, classify ip⟩

section Text

variable (text : IP → Bytes)

/-- The order of `sort.Slice` in `localCandidates`. -/
def less (a b : Candidate) : Bool :=
  if a.addrClass ≠ b.addrClass then a.addrClass.rank < b.addrClass.rank else text a.ip < text b.ip

/-- What `localCandidates` may return. -/
def IsLocalCandidates (ifaces : List Interface) (cands : List Candidate) : Prop :=
  cands.Perm (enumerate ifaces) ∧ cands.Pairwise fun a b => less text b a = false

end Text

/-- `selectPrimary`; without a candidate it would panic. -/
def selectPrimary (cands : List Candidate) (src : Option IP) : Option IP :=
  cands.head?.map fun first =>
    match src with
    | none => first.ip
    | some src =>
      (((cands.takeWhile (·.addrClass = first.addrClass)).find? fun c => equal c.ip src).map
        Candidate.ip).getD first.ip

/-! ## Local addresses -/

def allLocalIPs (ifaces : List Interface) : List IP :=
  ifaces.flatMap fun iface => iface.ips.map normalize

def containsIP (held : List IP) (want : IP) : Bool :=
  held.any fun ip => equal ip (normalize want)

def isLocalIP (ifaces : List Interface) : Option IP → Bool
  | none => false
  | some ip => if isLoopback ip then true else containsIP (allLocalIPs ifaces) ip

/-- `IsLocalHost`: whether the host is local, and whether that is known. -/
def isLocalHost (parseIP : Bytes → Option IP) (lookupIP : Bytes → Option (List IP))
    (ifaces : List Interface) (host : Bytes) : Bool × Bool :=
  let host := trimSpace host
  let held := allLocalIPs ifaces
  if host = [] then (false, false)
  else
    match parseIP host with
    | some ip => (containsIP held ip, true)
    | none =>
      match lookupIP host with
      | none | some [] => (false, false)
      | some ips => (ips.any (containsIP held), true)

/-- The two tests agree on a literal exactly when it is no loopback address, or one that an
interface has. -/
theorem local_tests_agree_iff (parseIP : Bytes → Option IP) (lookupIP : Bytes → Option (List IP))
    (blank : parseIP [] = none) (ifaces : List Interface) {text : Bytes} {ip : IP}
    (literal : parseIP (trimSpace text) = some ip) :
    isLocalHost parseIP lookupIP ifaces text = (isLocalIP ifaces (some ip), true)
      ↔ isLoopback ip = false ∨ containsIP (allLocalIPs ifaces) ip = true := by
  have nonempty : trimSpace text ≠ [] := by
    intro empty
    rw [empty, blank] at literal
    cases literal
  simp only [isLocalHost, if_neg nonempty, literal, isLocalIP, Prod.mk.injEq, and_true]
  cases isLoopback ip <;> simp

def readsLoopback (text : Bytes) : Option IP :=
  if text = ascii "127.0.0.1" then some (v4InV6Prefix ++ [127, 0, 0, 1])
  else if text = ascii "127.0.0.2" then some (v4InV6Prefix ++ [127, 0, 0, 2])
  else none

def onlyLoopback : List Interface := [⟨ascii "lo", true, true, some [some [127, 0, 0, 1]]⟩]

/-- The loopback address that an interface has. -/
theorem assigned_loopback_agrees :
    isLocalHost readsLoopback (fun _ => none) onlyLoopback (ascii " 127.0.0.1 ")
      = (isLocalIP onlyLoopback (some (v4InV6Prefix ++ [127, 0, 0, 1])), true) :=
  (local_tests_agree_iff _ _ rfl onlyLoopback (by decide)).mpr (.inr (by decide))

/-- Another loopback address is local as an address, and not local as a literal. -/
theorem other_loopback_disagrees :
    isLocalHost readsLoopback (fun _ => none) onlyLoopback (ascii "127.0.0.2") = (false, true)
      ∧ isLocalIP onlyLoopback (readsLoopback (ascii "127.0.0.2")) = true := by
  decide

/-! ## The primary address -/

theorem normalize_normalize (ip : IP) : normalize (normalize ip) = normalize ip := by
  unfold normalize to4
  split_ifs with four mapped <;> simp_all

theorem equal_normalize (ip : IP) : equal (normalize ip) ip = true := by
  unfold normalize to4 equal
  split_ifs <;> simp_all

theorem eq_normalize_of_equal {ip x : IP} (normal : normalize ip = ip) (same : equal ip x = true) :
    ip = normalize x := by
  unfold equal at same
  split_ifs at same with lengths short long
  · rw [← of_decide_eq_true same, normal]
  · obtain ⟨mapped, rfl⟩ := of_decide_eq_true same
    simp [normalize, to4, short.2, mapped]
  · -- the address would have an IPv4 form
    obtain ⟨mapped, rfl⟩ := of_decide_eq_true same
    have size := congrArg List.length normal
    simp [normalize, to4, long.1, mapped] at size

def Reordered (ifaces ifaces' : List Interface) : Prop :=
  ∃ mid, ifaces.Perm mid ∧ List.Forall₂ (fun i j => i.name = j.name ∧ i.up = j.up
    ∧ i.loopback = j.loopback ∧ Option.Rel List.Perm i.addrs j.addrs) mid ifaces'

theorem enumerate_perm {ifaces ifaces' : List Interface} (reordered : Reordered ifaces ifaces') :
    (enumerate ifaces).Perm (enumerate ifaces') := by
  obtain ⟨mid, perm, each⟩ := reordered
  refine (perm.flatMap_right _).trans ?_
  clear perm
  induction each with
  | nil => exact .nil
  | cons one _ ih =>
    obtain ⟨name, up, loopback, addrs⟩ := one
    rw [enumerate, List.flatMap_cons, List.flatMap_cons, name, up, loopback]
    refine List.Perm.append ?_ ih
    split
    · exact .nil
    · refine List.Perm.filterMap _ ?_
      unfold Interface.ips
      generalize Interface.addrs _ = left at addrs ⊢
      generalize Interface.addrs _ = right at addrs ⊢
      cases addrs with
      | none => exact .nil
      | some perm => exact perm.filterMap id

theorem enumerate_normal {ifaces : List Interface} {c : Candidate} (listed : c ∈ enumerate ifaces) :
    normalize c.ip = c.ip := by
  obtain ⟨iface, -, found⟩ := List.mem_flatMap.mp listed
  split at found
  · cases found
  · obtain ⟨ip, -, same⟩ := List.mem_filterMap.mp found
    split at same
    · cases same
    · cases same
      exact normalize_normalize ip

def Best (cands : List Candidate) (c : Candidate) : Prop :=
  c ∈ cands ∧ ∀ d ∈ cands, c.addrClass.rank ≤ d.addrClass.rank

theorem rank_inj : ∀ a b : AddrClass, a.rank = b.rank → a = b := by
  intro a b
  cases a <;> cases b <;> decide

section Primary

variable {text : IP → Bytes}

theorem rank_le_of_less {a b : Candidate} (order : less text b a = false) :
    a.addrClass.rank ≤ b.addrClass.rank := by
  unfold less at order
  split_ifs at order with other
  · exact Nat.not_lt.mp (of_decide_eq_false order)
  · rw [not_not.mp other]

theorem mem_takeWhile_best {cands : List Candidate} {best : AddrClass} {c : Candidate}
    (sorted : cands.Pairwise fun a b => less text b a = false)
    (least : ∀ d ∈ cands, best.rank ≤ d.addrClass.rank) (listed : c ∈ cands) (same : c.addrClass = best) :
    c ∈ cands.takeWhile (·.addrClass = best) := by
  induction cands with
  | nil => cases listed
  | cons d rest ih =>
    obtain ⟨before, sorted⟩ := List.pairwise_cons.mp sorted
    obtain ⟨low, least⟩ := List.forall_mem_cons.mp least
    have first : d.addrClass = best := by
      obtain rfl | later := List.mem_cons.mp listed
      · exact same
      · exact rank_inj _ _ (le_antisymm (same ▸ rank_le_of_less (before c later)) low)
    rw [List.takeWhile_cons_of_pos (by simpa using first)]
    obtain rfl | later := List.mem_cons.mp listed
    · exact List.mem_cons_self
    · exact List.mem_cons_of_mem _ (ih sorted least later)

/-- The choice in terms of the candidates alone: the route source if one of the best class has
it, and else the least candidate. -/
def Chosen (text : IP → Bytes) (cands : List Candidate) (src : Option IP) (c : Candidate) : Prop :=
  (∃ s, src = some s ∧ Best cands c ∧ c.ip = normalize s)
    ∨ (∀ s d, src = some s → Best cands d → d.ip ≠ normalize s)
      ∧ c ∈ cands ∧ ∀ d ∈ cands, less text d c = false

theorem Chosen.best {cands : List Candidate} {src : Option IP} {c : Candidate}
    (chosen : Chosen text cands src c) : Best cands c := by
  obtain ⟨_, -, best, -⟩ | ⟨-, listed, least⟩ := chosen
  · exact best
  · exact ⟨listed, fun d other => rank_le_of_less (least d other)⟩

theorem IsLocalCandidates.chosen {ifaces : List Interface} {cands : List Candidate}
    (local_ : IsLocalCandidates text ifaces cands) (usable : enumerate ifaces ≠ []) (src : Option IP) :
    ∃ c, selectPrimary cands src = some c.ip ∧ Chosen text cands src c := by
  obtain ⟨perm, sorted⟩ := local_
  have normal : ∀ c ∈ cands, normalize c.ip = c.ip :=
    fun c listed => enumerate_normal (perm.subset listed)
  obtain ⟨first, rest, rfl⟩ : ∃ first rest, cands = first :: rest :=
    List.exists_cons_of_ne_nil fun none => usable (none ▸ perm.symm).eq_nil
  have order : ∀ d ∈ first :: rest, less text d first = false :=
    List.forall_mem_cons.mpr ⟨by simp [less], (List.pairwise_cons.mp sorted).1⟩
  have least : ∀ d ∈ first :: rest, first.addrClass.rank ≤ d.addrClass.rank :=
    fun d listed => rank_le_of_less (order d listed)
  cases src with
  | none => exact ⟨first, rfl, .inr ⟨by simp, List.mem_cons_self, order⟩⟩
  | some s =>
    unfold selectPrimary
    simp only [List.head?_cons, Option.map_some]
    cases found : ((first :: rest).takeWhile (·.addrClass = first.addrClass)).find?
        fun c => equal c.ip s with
    | none =>
      refine ⟨first, rfl, .inr ⟨?_, List.mem_cons_self, order⟩⟩
      rintro _ d ⟨⟩ best same
      have first' := rank_inj _ _ (le_antisymm (best.2 first List.mem_cons_self) (least d best.1))
      have early := mem_takeWhile_best sorted least best.1 first'
      exact List.find?_eq_none.mp found d early (same ▸ equal_normalize s)
    | some c =>
      have early := List.mem_of_find?_eq_some found
      have listed := List.takeWhile_subset _ early
      have same : c.addrClass = first.addrClass := by simpa using List.mem_takeWhile_imp early
      have equal := eq_normalize_of_equal (normal c listed) (by simpa using List.find?_some found)
      exact ⟨c, rfl, .inl ⟨s, rfl, ⟨listed, same ▸ least⟩, equal⟩⟩

theorem Chosen.unique {cands cands' : List Candidate} {src : Option IP} {c c' : Candidate}
    (injective : Set.InjOn text {ip | normalize ip = ip}) (normal : ∀ c ∈ cands, normalize c.ip = c.ip)
    (same : ∀ c, c ∈ cands ↔ c ∈ cands') (chosen : Chosen text cands src c)
    (chosen' : Chosen text cands' src c') : c.ip = c'.ip := by
  have best (d : Candidate) : Best cands d ↔ Best cands' d := by simp only [Best, same]
  obtain ⟨s, rfl, found, equal⟩ | ⟨absent, listed, least⟩ := chosen <;>
    obtain ⟨s', source, found', equal'⟩ | ⟨absent', listed', least'⟩ := chosen'
  · cases source
    rw [equal, equal']
  · exact absurd equal (absent' s c rfl ((best c).mp found))
  · exact absurd equal' (absent s' c' source ((best c').mpr found'))
  · -- two least candidates: the same class, and the same text
    have order := least c' ((same c').mpr listed')
    have order' := least' c ((same c).mp listed)
    have level := rank_inj _ _ (le_antisymm (rank_le_of_less order) (rank_le_of_less order'))
    simp only [less, level, ne_eq, not_true_eq_false, if_false, decide_eq_false_iff_not, not_lt] at order order'
    exact injective (normal c listed) (normal c' ((same c').mpr listed')) (le_antisymm order order')

/-- The primary address does not depend on the order of interfaces and addresses nor on what
the sort makes of it, is of the best class, and is the route source if that is of this class. -/
theorem primary_stable (injective : Set.InjOn text {ip | normalize ip = ip})
    {ifaces ifaces' : List Interface} (reordered : Reordered ifaces ifaces')
    (some_usable : enumerate ifaces ≠ []) {cands cands' : List Candidate}
    (sorted : IsLocalCandidates text ifaces cands) (sorted' : IsLocalCandidates text ifaces' cands')
    (src : Option IP) :
    ∃ c, Best cands c ∧ selectPrimary cands src = some c.ip ∧ selectPrimary cands' src = some c.ip
      ∧ ∀ s d, src = some s → Best cands d → d.ip = normalize s → c.ip = normalize s := by
  have perm := enumerate_perm reordered
  obtain ⟨c, selected, chosen⟩ := sorted.chosen some_usable src
  obtain ⟨c', selected', chosen'⟩ :=
    sorted'.chosen (fun none => some_usable (perm.trans (none ▸ .nil)).eq_nil) src
  have same (d : Candidate) : d ∈ cands ↔ d ∈ cands' :=
    (sorted.1.trans (perm.trans sorted'.1.symm)).mem_iff
  have unique := chosen.unique injective (fun d listed => enumerate_normal (sorted.1.subset listed)) same chosen'
  refine ⟨c, chosen.best, selected, unique ▸ selected', ?_⟩
  rintro s d rfl best route
  obtain ⟨_, ⟨⟩, -, equal⟩ | ⟨absent, -⟩ := chosen
  · exact equal
  · exact absurd route (absent s d rfl best)

end Primary

def twoAddresses (one other : Byte) : List Interface :=
  [⟨ascii "eth0", true, false, some [some [10, 0, 0, one], some [10, 0, 0, other]]⟩]

/-- The second address is the route source, and is chosen in either order. -/
theorem route_source_chosen :
    ∃ ip, selectPrimary (enumerate (twoAddresses 1 2)) (some [10, 0, 0, 2]) = some ip
      ∧ ip = [10, 0, 0, 2] := by
  have reordered : Reordered (twoAddresses 2 1) (twoAddresses 1 2) :=
    ⟨_, .refl _, .cons ⟨rfl, rfl, rfl, .some (.swap _ _ _)⟩ .nil⟩
  have sorted : IsLocalCandidates id (twoAddresses 2 1) (enumerate (twoAddresses 1 2)) :=
    ⟨by decide, by decide⟩
  obtain ⟨c, -, -, selected, route⟩ := primary_stable (Set.injOn_id _) reordered (by decide) sorted
    ⟨.refl _, sorted.2⟩ (some [10, 0, 0, 2])
  exact ⟨c.ip, selected, route _ ⟨[10, 0, 0, 2], .privateV4⟩ rfl ⟨by decide, by decide⟩ rfl⟩

end SuperCache.NetId
