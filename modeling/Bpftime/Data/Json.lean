import Bpftime.Data.OrderedMap
import Mathlib.Data.Int.Notation

/-!
This module contains JSON values in the way that the `nlohmann` library builds and reads them, and
what is assumed about its printer and its parser.
-/

def utf8 (s : String) : List UInt8 := s.toUTF8.data.toList

theorem utf8_inj {s t : String} : utf8 s = utf8 t ↔ s = t := by
  unfold utf8
  rw [Array.toList_inj]
  constructor
  . intro h
    exact String.toByteArray_inj.mp (ByteArray.ext h)
  . intro h
    rw [h]

namespace Utf8

structure State where
  owed : ℕ := 0
  low : UInt8 := 0x80
  high : UInt8 := 0xBF

def first (b : UInt8) : Option State :=
  if b < 0x80 then some {}
  else if b < 0xC2 then none
  else if b < 0xE0 then some { owed := 1 }
  else if b = 0xE0 then some { owed := 2, low := 0xA0 }
  else if b = 0xED then some { owed := 2, high := 0x9F }
  else if b < 0xF0 then some { owed := 2 }
  else if b = 0xF0 then some { owed := 3, low := 0x90 }
  else if b < 0xF4 then some { owed := 3 }
  else if b = 0xF4 then some { owed := 3, high := 0x8F }
  else none

def step (q : State) (b : UInt8) : Option State :=
  if q.owed = 0 then first b
  else if q.low ≤ b ∧ b ≤ q.high then some { owed := q.owed - 1 }
  else none

def valid (s : List UInt8) : Bool :=
  match s.foldlM step {} with
  | none => false
  | some q => q.owed == 0

theorem valid_of_ascii {s : List UInt8} (hs : ∀ c ∈ s, c < 0x80) : valid s = true := by
  have hrun : s.foldlM step {} = some {} := by
    induction s with
    | nil => rfl
    | cons c s ih =>
      rw [List.foldlM_cons]
      unfold step first
      rw [if_pos rfl, if_pos (hs c List.mem_cons_self)]
      exact ih fun c hc => hs c (List.mem_cons_of_mem _ hc)
  unfold valid
  rw [hrun]
  rfl

end Utf8

inductive Json where
  | null
  | bool (b : Bool)
  | number (n : ℤ)
  | string (s : List UInt8)
  | array (elems : List Json)
  | object (members : List (List UInt8 × Json))

namespace Json

def get (j : Json) (key : List UInt8) : Option Json :=
  match j with
  | .null => some .null
  | .object members => some ((OrderedMap.get? key members).getD .null)
  | _ => none

def set (j : Json) (key : List UInt8) (v : Json) : Json :=
  match j with
  | .object members => .object (OrderedMap.insert key v members)
  | _ => .object [(key, v)]

def ofPairs (l : List (List UInt8 × Json)) : Json := l.foldl (fun j e => j.set e.1 e.2) .null

def asString : Json → Option (List UInt8)
  | .string s => some s
  | _ => none

def asNumber : Json → Option ℤ
  | .number n => some n
  | .bool b => some (if b then 1 else 0)
  | _ => none

def asBool : Json → Option Bool
  | .bool b => some b
  | _ => none

def elements : Json → List Json
  | .null => []
  | .array elems => elems
  | .object members => members.map Prod.snd
  | j => [j]

def items (index : ℕ → List UInt8) : Json → List (List UInt8 × Json)
  | .null => []
  | .array elems => elems.zipIdx.map fun e => (index e.2, e.1)
  | .object members => members
  | j => [([], j)]

mutual

def wellEncoded : Json → Bool
  | .string s => Utf8.valid s
  | .array elems => elemsWellEncoded elems
  | .object members => membersWellEncoded members
  | _ => true

def elemsWellEncoded : List Json → Bool
  | [] => true
  | j :: js => j.wellEncoded && elemsWellEncoded js

def membersWellEncoded : List (List UInt8 × Json) → Bool
  | [] => true
  | (key, j) :: ms => Utf8.valid key && j.wellEncoded && membersWellEncoded ms

end

theorem ofPairs_eq {l : List (List UInt8 × Json)} (hl : l ≠ [])
    : ofPairs l = .object (OrderedMap.ofList l) := by
  have hfold : ∀ (l ms : List (List UInt8 × Json)),
      l.foldl (fun j e => set j e.1 e.2) (object ms)
        = object (l.foldl (fun m e => OrderedMap.insert e.1 e.2 m) ms) := by
    intro l
    induction l with
    | nil =>
      intro ms
      rfl
    | cons e l ih =>
      intro ms
      exact ih _
  cases l with
  | nil => exact absurd rfl hl
  | cons e l => exact hfold l _

theorem items_ofPairs (index : ℕ → List UInt8) (l : List (List UInt8 × Json))
    : (ofPairs l).items index = OrderedMap.ofList l := by
  cases l with
  | nil => rfl
  | cons e l =>
    rw [ofPairs_eq (by simp)]
    rfl

theorem get_ofPairs {l : List (List UInt8 × Json)} (hl : (l.map Prod.fst).Nodup) (key : List UInt8)
    : (ofPairs l).get key = some ((OrderedMap.get? key l).getD .null) := by
  cases l with
  | nil => rfl
  | cons e l =>
    rw [ofPairs_eq (by simp)]
    simp only [get]
    rw [OrderedMap.get?_ofList hl]

theorem membersWellEncoded_iff {ms : List (List UInt8 × Json)}
    : membersWellEncoded ms = true ↔ ∀ m ∈ ms, Utf8.valid m.1 = true ∧ m.2.wellEncoded = true := by
  induction ms with
  | nil => simp [membersWellEncoded]
  | cons m ms ih =>
    rw [membersWellEncoded, List.forall_mem_cons, Bool.and_eq_true, Bool.and_eq_true, ih]

theorem wellEncoded_ofPairs {l : List (List UInt8 × Json)} (hl : (l.map Prod.fst).Nodup)
    : (ofPairs l).wellEncoded = true ↔ ∀ m ∈ l, Utf8.valid m.1 = true ∧ m.2.wellEncoded = true := by
  cases l with
  | nil => simp [ofPairs, wellEncoded]
  | cons e l =>
    rw [ofPairs_eq (by simp), wellEncoded, membersWellEncoded_iff]
    apply forall_congr'
    intro m
    rw [OrderedMap.mem_ofList hl]

end Json

structure JsonLibrary where
  Text : Type
  dump : Json → Option Text
  parse : Text → Option Json
  dump_isSome : ∀ j, (dump j).isSome = j.wellEncoded
  parse_of_dump : ∀ j t, dump j = some t → parse t = some j

namespace JsonLibrary

def direct : JsonLibrary where
  Text := Json
  dump := fun j => if j.wellEncoded then some j else none
  parse := some
  dump_isSome := by
    intro j
    split
    next h => rw [h]; rfl
    next h => simp [h]
  parse_of_dump := by
    intro j t h
    split at h
    next => exact h.symm
    next => simp at h

end JsonLibrary
