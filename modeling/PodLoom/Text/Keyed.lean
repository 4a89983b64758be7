import PodLoom.Text.Basic

set_option autoImplicit false

/-!
# Mappings in key order

A mapping is a list of keys with values.  Written out, it holds each key once, at
the place where it first appeared and with the value it was given last; keys that
are array indices (canonical decimal numerals below 2³² - 1) come first, in
ascending order, and the others follow in the order of their appearance.
-/

namespace PodLoom.Keyed

open Text

/-- Array indices are below this number. -/
def indexLimit : Nat := 4294967295

/-- The number of a key that is an array index. -/
def index? (key : Text) : Option Nat :=
  if key.length ≤ 10 ∧ key.all CodeUnit.isDigit then
    let n := key.foldl (fun n u => n * 10 + (u.toNat - 48)) 0
    if key = ofNat n ∧ n < indexLimit then some n else none
  else none

/-- Give a key a value: in its place if it is there, else at the end. -/
def put {α : Type} (key : Text) (value : α) : List (Text × α) → List (Text × α)
  | [] => [(key, value)]
  | (k, v) :: rest => if k = key then (k, value) :: rest else (k, v) :: put key value rest

/-- Each key once, with its last value, where it first appeared. -/
def dedup {α : Type} (pairs : List (Text × α)) : List (Text × α) :=
  pairs.foldl (fun kept (k, v) => put k v kept) []

/-- A mapping in key order. -/
def inOrder {α : Type} (pairs : List (Text × α)) : List (Text × α) :=
  let kept := dedup pairs
  let indexed := kept.filterMap fun (k, v) => (index? k).map fun n => (n, k, v)
  (indexed.mergeSort fun a b => a.1 ≤ b.1).map (·.2)
    ++ kept.filter fun (k, _) => (index? k).isNone

/-- The value of the first pair with the given key. -/
def find? {α : Type} (key : Text) (pairs : List (Text × α)) : Option α :=
  (pairs.find? (·.1 == key)).map (·.2)

/-- Pairs in the order of their keys. -/
def sort {α : Type} (pairs : List (Text × α)) : List (Text × α) :=
  pairs.mergeSort fun a b => Text.le a.1 b.1

end PodLoom.Keyed
