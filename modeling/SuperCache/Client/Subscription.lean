import SuperCache.Lib.Bytes
import SuperCache.Lib.FiniteMap

/-! # Subscriptions

`SubscriptionManager`: the sessions subscribed to each channel and each pattern.  A
session is named by its id.
-/

namespace SuperCache

open Lib

structure SubscriptionManager where
  chans : GoMap (List Nat)
  psubs : GoMap (List Nat)

namespace SubscriptionManager

def empty : SubscriptionManager where
  chans := ∅
  psubs := ∅

def sessionsOf (subs : GoMap (List Nat)) (name : Bytes) : List Nat :=
  (subs.lookup name).getD []

/-- `Subscribe` and `PSubscribe` on their map: a session is listed once. -/
def add (subs : GoMap (List Nat)) (name : Bytes) (session : Nat) : GoMap (List Nat) :=
  if session ∈ sessionsOf subs name then subs
  else subs.insert name (sessionsOf subs name ++ [session])

/-- `Unsubscribe` and `PUnsubscribe` on their map: a name nobody is left under goes. -/
def remove (subs : GoMap (List Nat)) (name : Bytes) (session : Nat) : GoMap (List Nat) :=
  let left := (sessionsOf subs name).filter (· ≠ session)
  if left = [] then subs.erase name else subs.insert name left

end SubscriptionManager

inductive SubKind where
  | channel
  | pattern
deriving DecidableEq

namespace SubscriptionManager

def listed (m : SubscriptionManager) : SubKind → GoMap (List Nat)
  | .channel => m.chans
  | .pattern => m.psubs

def modify (m : SubscriptionManager) (f : GoMap (List Nat) → GoMap (List Nat)) :
    SubKind → SubscriptionManager
  | .channel => { m with chans := f m.chans }
  | .pattern => { m with psubs := f m.psubs }

/-- `RemoveSessionFromAll`. -/
def removeSessionFromAll (m : SubscriptionManager) (session : Nat) : SubscriptionManager where
  chans := (sortedElems m.chans.keys).foldl (remove · · session) m.chans
  psubs := (sortedElems m.psubs.keys).foldl (remove · · session) m.psubs

end SubscriptionManager

end SuperCache
