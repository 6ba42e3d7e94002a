import Mathlib.Data.List.Nodup
import Mathlib.Data.List.Range
import TfPsaCrypto.Library.History

/-!
# Key streams from a counter

A counter mode feeds counter blocks to a block function. `Feeds` says which are fed for a part of
a message, and `NoReuse` that none is used for two positions.
-/

namespace CounterStream

variable {β : Type*}

/-- A counter block is fed to the block function, for the key stream bytes of that block
from `offset` on. -/
structure Feed (β : Type*) where
  counter : β
  offset : Nat

/-- The log of the bytes from `a` to `b`, cut into pieces that each lie in one block. -/
inductive Feeds (n : Nat) (block : Nat → β) (a : Nat) : List (Feed β) → Nat → Prop
  | nil : Feeds n block a [] a
  | snoc {log : List (Feed β)} {b len : Nat} : Feeds n block a log b → 0 < len →
      b % n + len ≤ n → Feeds n block a (log ++ [⟨block (b / n), b % n⟩]) (b + len)

/-- Counter blocks that start a block of the key stream are distinct, and one within a block is the
last one fed. -/
def NoReuse (log : List (Feed β)) : Prop :=
  ((log.filter (·.offset = 0)).map Feed.counter).Nodup ∧
    History.Each (fun pre f => f.offset ≠ 0 → ∃ g, pre.getLast? = some g ∧
      g.counter = f.counter) log

variable {n : Nat} {block : Nat → β} {a b c : Nat} {log log' : List (Feed β)}

theorem Feeds.append (h : Feeds n block a log b) (h' : Feeds n block b log' c) :
    Feeds n block a (log ++ log') c := by
  induction h' with
  | nil => simpa using h
  | snoc _ hlen hfit ih =>
    rw [← List.append_assoc]
    exact ih.snoc hlen hfit

theorem Feeds.single {len : Nat} (hlen : 0 < len) (hfit : a % n + len ≤ n) :
    Feeds n block a [⟨block (a / n), a % n⟩] (a + len) :=
  Feeds.nil.snoc hlen hfit

theorem starts_add (hn : 0 < n) {len : Nat} (hlen : 0 < len) (hfit : b % n + len ≤ n) :
    (b + len + (n - 1)) / n = (b + (n - 1)) / n + if b % n = 0 then 1 else 0 := by
  have hb := Nat.div_add_mod b n
  have hlt := Nat.mod_lt b hn
  generalize b / n = q at hb
  generalize b % n = r at hb hfit hlt
  subst hb
  have hleft : (n * q + r + len + (n - 1)) / n = q + (r + len + (n - 1)) / n := by
    rw [Nat.add_assoc, Nat.add_assoc, Nat.mul_add_div hn, ← Nat.add_assoc]
  have hright : (n * q + r + (n - 1)) / n = q + (r + (n - 1)) / n := by
    rw [Nat.add_assoc, Nat.mul_add_div hn]
  have hone : (r + len + (n - 1)) / n = 1 := Nat.div_eq_of_lt_le (by omega) (by omega)
  rw [hleft, hright, hone]
  split
  · next hr =>
    subst hr
    rw [Nat.div_eq_of_lt (by omega)]
  · have htwo : (r + (n - 1)) / n = 1 := Nat.div_eq_of_lt_le (by omega) (by omega)
    rw [htwo]

theorem Feeds.starts (hn : 0 < n) (h : Feeds n block 0 log b) :
    (log.filter (·.offset = 0)).map Feed.counter = (List.range ((b + (n - 1)) / n)).map block := by
  induction h with
  | nil =>
    rw [Nat.div_eq_of_lt (by omega)]
    rfl
  | @snoc log b len _ hlen hfit ih =>
    rw [List.filter_append, List.map_append, ih, starts_add hn hlen hfit]
    by_cases hoff : b % n = 0
    · have hceil : (b + (n - 1)) / n = b / n := by
        obtain ⟨q, hq⟩ := Nat.dvd_of_mod_eq_zero hoff
        rw [hq, Nat.mul_add_div hn, Nat.mul_div_cancel_left _ hn,
          Nat.div_eq_of_lt (by omega), Nat.add_zero]
      rw [if_pos hoff, List.range_succ, List.map_append, hceil]
      simp [hoff]
    · rw [if_neg hoff]
      simp [hoff]

theorem Feeds.last (h : Feeds n block 0 log b) (hb : 0 < b) :
    ∃ g, log.getLast? = some g ∧ g.counter = block ((b - 1) / n) := by
  cases h with
  | nil => omega
  | @snoc log b len _ hlen hfit =>
    refine ⟨_, List.getLast?_concat, ?_⟩
    have hdiv := Nat.div_add_mod b n
    have hq : (b + len - 1) / n = b / n := by
      apply Nat.div_eq_of_lt_le
      · rw [Nat.mul_comm]
        omega
      · rw [Nat.succ_mul, Nat.mul_comm]
        omega
    rw [hq]

theorem Feeds.continues (h : Feeds n block 0 log b) :
    History.Each (fun pre f => f.offset ≠ 0 → ∃ g, pre.getLast? = some g ∧
      g.counter = f.counter) log := by
  induction h with
  | nil => exact History.each_nil
  | @snoc log b len hlog hlen hfit ih =>
    rw [History.each_append_singleton]
    refine ⟨ih, ?_⟩
    intro hoff
    have hb : 0 < b := by
      apply Nat.pos_of_ne_zero
      rintro rfl
      exact hoff (Nat.zero_mod n)
    obtain ⟨g, hg, hcounter⟩ := hlog.last hb
    refine ⟨g, hg, ?_⟩
    have hn : 0 < n := by omega
    have hdiv := Nat.div_add_mod b n
    have hq : (b - 1) / n = b / n := by
      have hoff' : b % n ≠ 0 := hoff
      apply Nat.div_eq_of_lt_le
      · rw [Nat.mul_comm]
        omega
      · rw [Nat.succ_mul, Nat.mul_comm]
        omega
    rw [hcounter, hq]

theorem Feeds.noReuse_iff (hn : 0 < n) (h : Feeds n block 0 log b) :
    NoReuse log ↔ ((List.range ((b + (n - 1)) / n)).map block).Nodup := by
  rw [NoReuse, h.starts hn]
  constructor
  · rintro ⟨hnodup, _⟩
    exact hnodup
  · intro hnodup
    exact ⟨hnodup, h.continues⟩

theorem Feeds.noReuse_cons_iff (hn : 0 < n) (h : Feeds n block 0 log b) {c : β} :
    NoReuse (⟨c, 0⟩ :: log) ↔ (c :: (List.range ((b + (n - 1)) / n)).map block).Nodup := by
  unfold NoReuse
  rw [List.filter_cons_of_pos (by simp), List.map_cons, h.starts hn]
  constructor
  · rintro ⟨hnodup, _⟩
    exact hnodup
  intro hnodup
  refine ⟨hnodup, ?_⟩
  intro pre f post hlog hoff
  cases pre with
  | nil =>
    obtain ⟨rfl, _⟩ := List.cons.inj hlog
    exact absurd rfl hoff
  | cons c' pre =>
    obtain ⟨_, hrest⟩ := List.cons.inj hlog
    obtain ⟨g, hg, hcounter⟩ := h.continues pre f post hrest hoff
    refine ⟨g, ?_, hcounter⟩
    rw [List.getLast?_cons, hg]
    rfl

theorem Feeds.noReuse_snoc_iff (hn : 0 < n) (h : Feeds n block 0 log b) {c : β} :
    NoReuse (log ++ [⟨c, 0⟩]) ↔ ((List.range ((b + (n - 1)) / n)).map block ++ [c]).Nodup := by
  unfold NoReuse
  rw [List.filter_append, List.map_append, h.starts hn, History.each_append_singleton]
  constructor
  · rintro ⟨hnodup, _⟩
    simpa using hnodup
  · intro hnodup
    refine ⟨by simpa using hnodup, h.continues, ?_⟩
    intro hoff
    exact absurd rfl hoff

theorem noReuse_blocks_iff {k : Nat} :
    NoReuse ((List.range k).map fun i => ⟨block i, 0⟩) ↔ ((List.range k).map block).Nodup := by
  have hfilter : ((List.range k).map fun i => (⟨block i, 0⟩ : Feed β)).filter (·.offset = 0) =
      (List.range k).map fun i => ⟨block i, 0⟩ := by
    apply List.filter_eq_self.mpr
    simp
  unfold NoReuse
  rw [hfilter, List.map_map]
  constructor
  · rintro ⟨hnodup, _⟩
    exact hnodup
  intro hnodup
  refine ⟨hnodup, ?_⟩
  intro pre f post hlog hoff
  have hmem : f ∈ (List.range k).map fun i => (⟨block i, 0⟩ : Feed β) := by
    rw [hlog]
    simp
  obtain ⟨i, _, rfl⟩ := List.mem_map.mp hmem
  exact absurd rfl hoff

theorem nodup_range_iff {m k : Nat} (hm : 0 < m)
    (hblock : ∀ i j, block i = block j ↔ i % m = j % m) :
    ((List.range k).map block).Nodup ↔ k ≤ m := by
  constructor
  · intro hnodup
    by_contra hlt
    have hinj := List.inj_on_of_nodup_map hnodup
    have hzero : (0 : Nat) = m := by
      apply hinj (by rw [List.mem_range]; omega) (by rw [List.mem_range]; omega)
      rw [hblock, Nat.zero_mod, Nat.mod_self]
    omega
  · intro hle
    apply List.Nodup.map_on _ List.nodup_range
    intro i hi j hj heq
    rw [List.mem_range] at hi hj
    rw [hblock, Nat.mod_eq_of_lt (by omega), Nat.mod_eq_of_lt (by omega)] at heq
    exact heq

end CounterStream
