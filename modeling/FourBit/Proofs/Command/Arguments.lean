import FourBit.Command.Request
import FourBit.Proofs.Program.Literal

/-! What arguments can ask for.
Whatever the arguments are, a request that they make is for a built-in machine, for a number of
steps that can be written, and at a rate that a clock can have, if at any. -/
namespace FourBit

namespace Numeral
variable {cs : List Char}

private theorem lt_of_digit? {base d : Nat} {c : Char} (h : digit? base c = some d) : d < base :=
  of_decide_eq_true (Option.filter_eq_some_iff.mp h).2

private theorem ofDigits_lt {ds : List Nat} (h : ∀ d ∈ ds, d < 10) :
    ofDigits 10 ds < Nat.pow 10 ds.length := by
  have hbound := Nat.ofDigits_lt_base_pow_length (b := 10) (l := ds.reverse) (by decide)
    fun d hd => h d (List.mem_reverse.mp hd)
  rwa [List.length_reverse, ← Program.ofDigits_eq] at hbound

private theorem exists_of_readDigits {base n : Nat} (h : readDigits base cs = .ok n) :
    ∃ ds, (∀ d ∈ ds, d < base) ∧ (base = 10 → ds.length ≤ maxDigits) ∧ ofDigits base ds = n := by
  simp only [readDigits] at h
  split at h
  · cases h
  · split at h
    · cases h
    · rename_i hlong
      split at h
      · cases h
      · refine ⟨_, fun d hd => ?_, fun hten => ?_, Except.ok.inj h⟩
        · obtain ⟨c, -, hc⟩ := List.mem_filterMap.mp hd
          exact lt_of_digit? hc
        · rw [Bool.and_eq_true, decide_eq_true_eq, decide_eq_true_eq] at hlong
          exact Nat.not_lt.mp fun hlt => hlong ⟨hten, hlt⟩

private theorem lt_of_readMagnitude {n : Nat} (h : readMagnitude .decimal cs = .ok n) :
    n < Nat.pow 10 maxDigits := by
  have hpow {j k : Nat} (hle : j ≤ k) : Nat.pow 10 j ≤ Nat.pow 10 k :=
    Nat.pow_le_pow_right (by decide) hle
  obtain ⟨ds, hds, hlength, rfl⟩ := exists_of_readDigits h
  exact Nat.lt_of_lt_of_le (ofDigits_lt hds) (hpow (hlength rfl))

theorem isWritable_of_readInteger {i : Int} (h : readInteger .decimal cs = .ok i) :
    isWritable i = true := by
  have hsigned {cs : List Char} {f : Int → Int}
      (h : (do return ((← readMagnitude .decimal cs : Nat) : Int) :
        Except LiteralError Int).map f = .ok i)
      (hf : ∀ i, (f i).natAbs = i.natAbs) : isWritable i = true := by
    cases hn : readMagnitude .decimal cs with
    | error e =>
      rw [hn] at h
      cases h
    | ok n =>
      rw [hn] at h
      obtain rfl := Except.ok.inj h
      rw [isWritable_iff, hf]
      exact lt_of_readMagnitude hn
  rw [readInteger] at h
  split at h
  · exact hsigned h Int.natAbs_neg
  · exact hsigned h fun _ => rfl
  · exact hsigned h fun _ => rfl

end Numeral

namespace Command
open Numeral

structure Request.Proper (r : Request) : Prop where
  variant : r.variant ∈ Variant.builtin
  steps_nonneg : 0 ≤ r.steps
  steps_writable : isWritable r.steps = true
  rate_pos : ∀ rate ∈ r.rate, ¬ rate ≤ 0

namespace Draft

/-- What has been taken so far names a built-in machine and a number that can be written. -/
structure Sound (d : Draft) : Prop where
  variant : d.request.variant ∈ Variant.builtin
  steps : isWritable d.request.steps = true

variable {d d' : Draft}

private theorem Sound.addWord (h : d.Sound) (text : String) : (d.addWord text).Sound := by
  unfold Draft.addWord
  split
  · exact ⟨h.variant, h.steps⟩
  · exact ⟨h.variant, h.steps⟩

private theorem Sound.setText (h : d.Sound) {s : Switch} {text : String}
    (hd : d.setText s text = .ok d') : d'.Sound := by
  cases s with
  | variant =>
    rw [Draft.setText] at hd
    split at hd
    · rename_i v hv
      obtain rfl := Except.ok.inj hd
      exact ⟨List.mem_of_find?_eq_some hv, h.steps⟩
    · cases hd
  | steps =>
    rw [Draft.setText] at hd
    split at hd
    · rename_i steps hsteps
      obtain rfl := Except.ok.inj hd
      exact ⟨h.variant, isWritable_of_readInteger hsteps⟩
    · cases hd
  | rate =>
    rw [Draft.setText] at hd
    split at hd
    · obtain rfl := Except.ok.inj hd
      exact ⟨h.variant, h.steps⟩
    · cases hd
  | _ =>
    obtain rfl := Except.ok.inj hd
    exact ⟨h.variant, h.steps⟩

private theorem Sound.setValue (h : d.Sound) {s : Switch} {text : String}
    (hd : d.setValue s text = .ok d') : d'.Sound := by
  rw [Draft.setValue] at hd
  split at hd
  · obtain rfl := Except.ok.inj hd
    cases s <;> exact ⟨h.variant, h.steps⟩
  · have hblank : { d with blank := d.blank.filter (· != s) }.Sound := ⟨h.variant, h.steps⟩
    exact hblank.setText hd

private theorem Sound.turnOn (h : d.Sound) {s : Switch} (hd : d.turnOn s = .ok d') : d'.Sound := by
  cases s with
  | help => cases hd
  | _ =>
    obtain rfl := Except.ok.inj hd
    exact ⟨h.variant, h.steps⟩

private theorem Sound.addItems {items : List Item} (h : d.Sound)
    (hd : d.addItems items = .ok d') : d'.Sound := by
  fun_induction Draft.addItems d items with
  | case1 d =>
    obtain rfl := Except.ok.inj hd
    exact h
  | case2 d text rest ih | case4 d text rest ih =>
    refine ih ?_ hd
    split
    · exact ⟨h.variant, h.steps⟩
    · exact h.addWord text
  | case3 d text rest _ ih => exact ih (h.addWord text) hd
  | case5 d rest _ ih | case6 d text rest ih => exact ih ⟨h.variant, h.steps⟩ hd
  | case7 d s _ text rest ih | case10 d s text rest _ ih =>
    obtain ⟨taken, htaken, hrest⟩ := ok_of_bind hd
    exact ih taken (h.setValue htaken) hrest
  | case9 d s rest _ ih =>
    obtain ⟨taken, htaken, hrest⟩ := ok_of_bind hd
    exact ih taken (h.turnOn htaken) hrest
  | case8 | case11 => cases hd

end Draft

namespace Request

private theorem ok_of_check {α : Type} {c : Prop} [Decidable c] {reason : String}
    {x : Except Stop α} {a : α} (h : (if c then (do refuse reason; x) else x) = .ok a) :
    ¬ c ∧ x = .ok a := by
  by_cases hc : c
  · rw [if_pos hc] at h
    cases h
  · rw [if_neg hc] at h
    exact ⟨hc, h⟩

private theorem ok_of_needed {α : Type} {s : Switch} {d : Draft} {x : Except Stop α} {a : α}
    (h : (do needed s d; x) = .ok a) : x = .ok a := by
  obtain ⟨-, -, hx⟩ := ok_of_bind h
  exact hx

private theorem proper_of_draft {d : Draft} {r : Request} (hs : d.Sound)
    (h : ofDraft d = .ok r) : r.Proper := by
  simp only [ofDraft] at h
  obtain ⟨-, h⟩ := ok_of_check h
  obtain ⟨-, h⟩ := ok_of_check h
  obtain ⟨hsteps, h⟩ := ok_of_check (ok_of_needed h)
  obtain ⟨hrate, h⟩ := ok_of_check (ok_of_needed h)
  obtain ⟨assignments, -, h⟩ := ok_of_bind h
  obtain rfl := Except.ok.inj (ok_of_needed h)
  refine ⟨hs.variant, Int.not_lt.mp hsteps, hs.steps, fun rate hr hle => hrate ?_⟩
  rw [show d.request.rate = some rate from hr]
  exact decide_eq_true hle

theorem proper_of_arguments {args : List String} {r : Request}
    (h : Request.ofArguments args = .ok r) : r.Proper := by
  rw [ofArguments] at h
  split at h
  · obtain ⟨d, hd, hr⟩ := ok_of_bind h
    have hfirst : Draft.Sound {} := ⟨List.mem_cons_self, isWritable_of_lt (by decide)⟩
    exact proper_of_draft (hfirst.addItems hd) hr
  · cases h

end Request
end Command
end FourBit
