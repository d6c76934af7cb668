/-! A row of memory cells.
An address counts from the first cell, or from the end when it is negative, as far as there are
cells. Writing a stretch puts its cells in the place of those it covers, and where it covers none,
between them. -/
namespace FourBit.Cells

def place? (n : Nat) (address : Int) : Option Nat :=
  if 0 ≤ address ∧ address < n then some address.toNat
  else if address < 0 ∧ 0 ≤ address + n then some (address + n).toNat
  else none

def get? (cells : List Int) (address : Int) : Option Int :=
  (place? cells.length address).bind (cells[·]?)

def set? (cells : List Int) (address value : Int) : Option (List Int) :=
  (place? cells.length address).map (cells.set · value)

theorem place?_of_lt {n : Nat} {address : Int} (h : 0 ≤ address ∧ address < n) :
    place? n address = some address.toNat := by
  simp [place?, h]

theorem lt_of_place? {n k : Nat} {address : Int} (h : place? n address = some k) : k < n := by
  unfold place? at h
  split at h
  · injection h with h
    omega
  · split at h
    · injection h with h
      omega
    · contradiction

theorem get?_of_lt {cells : List Int} {address : Int}
    (h : 0 ≤ address ∧ address < cells.length) : get? cells address = cells[address.toNat]? := by
  simp [get?, place?_of_lt h]

theorem length_set? {cells new : List Int} {address value : Int}
    (h : set? cells address value = some new) : new.length = cells.length := by
  obtain ⟨k, -, rfl⟩ := Option.map_eq_some_iff.1 h
  exact List.length_set

/-- The boundary between cells that an address marks, at one end when it lies outside. -/
def cut (n : Nat) (address : Int) : Nat :=
  min n (if address < 0 then address + n else address).toNat

def splice (cells : List Int) (start stop : Int) (new : List Int) : List Int :=
  let first := cut cells.length start
  cells.take first ++ new ++ cells.drop (max first (cut cells.length stop))

theorem splice_eq {cells new : List Int} {start : Int} (h : 0 ≤ start)
    (hn : start + new.length ≤ cells.length) :
    splice cells start (start + new.length) new =
      cells.take start.toNat ++ new ++ cells.drop (start.toNat + new.length) := by
  have hs : cut cells.length start = start.toNat := by
    rw [cut, if_neg (by omega)]
    omega
  have he : cut cells.length (start + new.length) = start.toNat + new.length := by
    rw [cut, if_neg (by omega)]
    omega
  rw [splice, hs, he, Nat.max_eq_right (by omega)]

theorem length_splice {cells new : List Int} {start : Int} (h : 0 ≤ start)
    (hn : start + new.length ≤ cells.length) :
    (splice cells start (start + new.length) new).length = cells.length := by
  rw [splice_eq h hn]
  simp only [List.length_append, List.length_take, List.length_drop]
  omega

theorem mem_splice {cells new : List Int} {start stop i : Int}
    (h : i ∈ splice cells start stop new) : i ∈ cells ∨ i ∈ new := by
  simp only [splice, List.mem_append] at h
  rcases h with (h | h) | h
  · exact .inl (List.mem_of_mem_take h)
  · exact .inr h
  · exact .inl (List.mem_of_mem_drop h)

end FourBit.Cells
