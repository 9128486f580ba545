import Mathlib.Algebra.Order.Group.Multiset
import Motis.Lib.ForwardSearch
import Motis.Lib.Runs

/-! `dial`: a queue with a bucket for every distance.

    The cursor `current_bucket_` is only a bound: the buckets before it are empty. It is lowered by a
    push, and moves to the first bucket with an element when one is asked for.

        buckets_     [ ]   [ ]   [a]   [ ]   [b, c]
                      ▲
                current_bucket_                        -/

namespace Motis

structure Dial (T : Type) where
  currentBucket : ℕ
  size : ℕ
  buckets : List (List T)
  deriving DecidableEq

namespace Dial

variable {T : Type}

def new (maxBucket : ℕ) : Dial T := ⟨0, 0, List.replicate (maxBucket + 1) []⟩

def getNextBucket (d : Dial T) : ℕ :=
  ForwardSearch.findFrom (fun i => !(d.buckets.getD i []).isEmpty) d.currentBucket d.buckets.length

/-- An access behind the buckets is `none`. -/
def push (getBucket : T → ℕ) (d : Dial T) (el : T) : Option (Dial T) := do
  let dist := getBucket el
  let bucket ← d.buckets[dist]?
  pure
    { currentBucket := min d.currentBucket dist, size := d.size + 1
      buckets := d.buckets.set dist (bucket ++ [el]) }

def top (d : Dial T) : Option (T × Dial T) := do
  let next := d.getNextBucket
  let bucket ← d.buckets[next]?
  let el ← bucket.getLast?
  pure (el, { d with currentBucket := next })

/-- With the element that is removed. -/
def pop (d : Dial T) : Option (T × Dial T) := do
  let next := d.getNextBucket
  let bucket ← d.buckets[next]?
  let el ← bucket.getLast?
  pure (el,
    { currentBucket := next, size := d.size - 1, buckets := d.buckets.set next bucket.dropLast })

def isEmpty (d : Dial T) : Bool := d.size = 0

/-! ### Elements -/

/-- What is in the queue. -/
def elements (d : Dial T) : Multiset T := d.buckets.flatten

/-- Another list in place of one. -/
theorem flatten_set {l : List (List T)} {i : ℕ} {b : List T} (h : l[i]? = some b) (b' : List T) :
    ((l.set i b').flatten : Multiset T) + b = l.flatten + b' := by
  induction l generalizing i with
  | nil => cases h
  | cons a l ih =>
    cases i with
    | zero =>
      obtain rfl := Option.some.inj h
      rw [List.set_cons_zero, List.flatten_cons, List.flatten_cons, ← Multiset.coe_add,
        ← Multiset.coe_add, add_right_comm, add_comm (b' : Multiset T), add_right_comm]
    | succ i =>
      rw [List.set_cons_succ, List.flatten_cons, List.flatten_cons, ← Multiset.coe_add,
        ← Multiset.coe_add, add_assoc, add_assoc, ih h]

/-- The elements are in their buckets, none of them before the cursor. -/
structure Valid (getBucket : T → ℕ) (maxBucket : ℕ) (d : Dial T) : Prop where
  length : d.buckets.length = maxBucket + 1
  filed : ∀ (i : ℕ) (bucket : List T), d.buckets[i]? = some bucket →
    ∀ el ∈ bucket, getBucket el = i
  below : ∀ (i : ℕ) (bucket : List T), d.buckets[i]? = some bucket → i < d.currentBucket →
    bucket = []
  size : d.size = d.elements.card

/-- An element in a least bucket. -/
def Least (getBucket : T → ℕ) (d : Dial T) (el : T) : Prop :=
  el ∈ d.elements ∧ ∀ e ∈ d.elements, getBucket el ≤ getBucket e

section Operations

variable {getBucket : T → ℕ} {maxBucket : ℕ} {d : Dial T}

theorem mem_elements {el : T} :
    el ∈ d.elements ↔ ∃ (i : ℕ) (bucket : List T), d.buckets[i]? = some bucket ∧ el ∈ bucket := by
  rw [elements, Multiset.mem_coe, List.mem_flatten]
  constructor
  · rintro ⟨bucket, hbucket, hel⟩
    obtain ⟨i, hi⟩ := List.mem_iff_getElem?.mp hbucket
    exact ⟨i, bucket, hi, hel⟩
  · rintro ⟨i, bucket, hi, hel⟩
    exact ⟨bucket, List.mem_of_getElem? hi, hel⟩

theorem elements_new : (new maxBucket : Dial T).elements = 0 := by
  rw [elements, new, List.flatten_replicate_nil, Multiset.coe_nil]

theorem valid_new : Valid getBucket maxBucket (new maxBucket) where
  length := List.length_replicate
  filed i bucket hi el hel := by
    obtain rfl := List.eq_of_mem_replicate (List.mem_of_getElem? hi)
    cases hel
  below _ _ _ hlt := absurd hlt (Nat.not_lt_zero _)
  size := by
    rw [elements_new]
    rfl

theorem Valid.push (h : Valid getBucket maxBucket d) {el : T} (hel : getBucket el ≤ maxBucket) :
    ∃ d', d.push getBucket el = some d' ∧ Valid getBucket maxBucket d' ∧
      d'.elements = el ::ₘ d.elements := by
  have hlt : getBucket el < d.buckets.length := h.length ▸ Nat.lt_succ_of_le hel
  obtain ⟨bucket, hget⟩ : ∃ bucket, d.buckets[getBucket el]? = some bucket :=
    ⟨_, List.getElem?_eq_getElem hlt⟩
  have helements : (((d.buckets.set (getBucket el) (bucket ++ [el])).flatten : List T) : Multiset T) =
      el ::ₘ d.elements := by
    have hset := flatten_set hget (bucket ++ [el])
    rw [← Multiset.coe_add, ← add_assoc, add_right_comm] at hset
    rw [add_right_cancel hset, Multiset.coe_singleton, add_comm, Multiset.singleton_add, elements]
  have hpush : d.push getBucket el = some
      ⟨min d.currentBucket (getBucket el), d.size + 1,
        d.buckets.set (getBucket el) (bucket ++ [el])⟩ := by
    rw [Dial.push, hget]
    rfl
  refine ⟨_, hpush, ⟨?_, ?_, ?_, ?_⟩, helements⟩
  · rw [List.length_set, h.length]
  · intro i b hi e he
    rw [List.getElem?_set] at hi
    split at hi
    · rename_i heq
      obtain rfl := Option.some.inj hi
      rcases List.mem_append.mp he with he | he
      · exact heq ▸ h.filed _ bucket hget e he
      · rw [List.mem_singleton.mp he, heq]
    · exact h.filed i b hi e he
  · intro i b hi hcursor
    obtain ⟨hcursor, hdist⟩ := Nat.lt_min.mp hcursor
    rw [List.getElem?_set, if_neg hdist.ne'] at hi
    exact h.below i b hi hcursor
  · rw [elements, helements, Multiset.card_cons, h.size]

/-- The last element of the first bucket with one. -/
theorem Valid.exists_next (h : Valid getBucket maxBucket d) (hne : d.size ≠ 0) :
    ∃ bucket el, d.buckets[d.getNextBucket]? = some (bucket ++ [el]) ∧
      ∀ (i : ℕ) (b : List T), d.buckets[i]? = some b → i < d.getNextBucket → b = [] := by
  obtain ⟨e, he⟩ : ∃ e, e ∈ d.elements := by
    refine Multiset.card_pos_iff_exists_mem.mp ?_
    rw [← h.size]
    exact Nat.pos_of_ne_zero hne
  obtain ⟨k, b, hk, heb⟩ := mem_elements.mp he
  have hcursor : d.currentBucket ≤ k := by
    by_contra hlt
    rw [h.below k b hk (not_le.mp hlt)] at heb
    cases heb
  have hklt : k < d.buckets.length := (List.getElem?_eq_some_iff.mp hk).1
  obtain ⟨-, hlt, hfound⟩ := ForwardSearch.findFrom_of_exists
    (p := fun i => !(d.buckets.getD i []).isEmpty)
    ⟨k, hcursor, hklt, by simpa [hk] using List.ne_nil_of_mem heb⟩
  have hget : d.buckets[d.getNextBucket]? = some d.buckets[d.getNextBucket] :=
    List.getElem?_eq_getElem hlt
  have hnonempty : d.buckets[d.getNextBucket] ≠ [] := by
    have hnext : (!(d.buckets.getD d.getNextBucket []).isEmpty) = true := hfound
    rw [List.getD_eq_getElem?_getD, hget] at hnext
    simpa using hnext
  obtain ⟨bucket, el, hbucket⟩ := (List.eq_nil_or_concat _).resolve_left hnonempty
  refine ⟨bucket, el, by rw [← List.concat_eq_append, ← hbucket]; exact hget, fun i b hi hlt' => ?_⟩
  rcases Nat.lt_or_ge i d.currentBucket with hcur | hcur
  · exact h.below i b hi hcur
  · simpa [hi] using ForwardSearch.eq_false_of_lt_findFrom hcur hlt'

theorem Valid.least (h : Valid getBucket maxBucket d) {i : ℕ} {bucket : List T} {el : T}
    (hget : d.buckets[i]? = some bucket) (hel : el ∈ bucket)
    (hbefore : ∀ (k : ℕ) (b : List T), d.buckets[k]? = some b → k < i → b = []) :
    Least getBucket d el := by
  refine ⟨mem_elements.mpr ⟨i, bucket, hget, hel⟩, fun e he => ?_⟩
  obtain ⟨k, b, hk, heb⟩ := mem_elements.mp he
  rw [h.filed i bucket hget el hel, h.filed k b hk e heb]
  by_contra hlt
  rw [hbefore k b hk (not_le.mp hlt)] at heb
  cases heb

theorem Valid.top (h : Valid getBucket maxBucket d) (hne : d.size ≠ 0) :
    ∃ el d', d.top = some (el, d') ∧ Least getBucket d el ∧ Valid getBucket maxBucket d' ∧
      d'.elements = d.elements := by
  obtain ⟨bucket, el, hget, hbefore⟩ := h.exists_next hne
  have htop : d.top = some (el, { d with currentBucket := d.getNextBucket }) := by
    rw [Dial.top, hget, Option.bind_eq_bind, Option.bind_some, List.getLast?_concat]
    rfl
  exact ⟨el, _, htop, h.least hget (List.mem_append_right _ (List.mem_singleton_self el)) hbefore,
    ⟨h.length, h.filed, hbefore, h.size⟩, rfl⟩

theorem Valid.pop (h : Valid getBucket maxBucket d) (hne : d.size ≠ 0) :
    ∃ el d', d.pop = some (el, d') ∧ Least getBucket d el ∧ Valid getBucket maxBucket d' ∧
      el ::ₘ d'.elements = d.elements := by
  obtain ⟨bucket, el, hget, hbefore⟩ := h.exists_next hne
  have hmem : el ∈ bucket ++ [el] := List.mem_append_right _ (List.mem_singleton_self el)
  have hpop : d.pop = some (el,
      ⟨d.getNextBucket, d.size - 1, d.buckets.set d.getNextBucket bucket⟩) := by
    rw [Dial.pop, hget, Option.bind_eq_bind, Option.bind_some, List.getLast?_concat,
      List.dropLast_concat]
    rfl
  have helements : el ::ₘ
      (((d.buckets.set d.getNextBucket bucket).flatten : List T) : Multiset T) = d.elements := by
    have hset := flatten_set hget bucket
    rw [← Multiset.coe_add, ← add_assoc, add_right_comm] at hset
    rw [elements, ← add_right_cancel hset, Multiset.coe_singleton, add_comm,
      Multiset.singleton_add]
  refine ⟨el, _, hpop, h.least hget hmem hbefore, ⟨?_, ?_, ?_, ?_⟩, helements⟩
  · rw [List.length_set, h.length]
  · intro i b hi e he
    rw [List.getElem?_set] at hi
    split at hi
    · rename_i heq
      split at hi
      · obtain rfl := Option.some.inj hi
        exact heq ▸ h.filed _ _ hget e (List.mem_append_left _ he)
      · cases hi
    · exact h.filed i b hi e he
  · intro i b hi hlt
    rw [List.getElem?_set, if_neg hlt.ne'] at hi
    exact hbefore i b hi hlt
  · rw [h.size, ← helements, Multiset.card_cons]
    rfl

end Operations

/-! ### Runs -/

inductive Call (T : Type) where
  | push (el : T)
  | top
  | pop

/-- A queue, and what went through it. -/
structure History (T : Type) where
  dial : Dial T
  pushed : Multiset T := 0
  popped : Multiset T := 0

section Runs

variable (getBucket : T → ℕ) (maxBucket : ℕ)

/-- The assertions of the calls. -/
def Allowed (d : Dial T) : Call T → Prop
  | .push el => getBucket el ≤ maxBucket
  | .top | .pop => d.isEmpty = false

instance (d : Dial T) : (c : Call T) → Decidable (Allowed getBucket maxBucket d c)
  | .push el => inferInstanceAs (Decidable (getBucket el ≤ maxBucket))
  | .top | .pop => inferInstanceAs (Decidable (d.isEmpty = false))

def History.call (h : History T) : Call T → Option (History T)
  | .push el => (h.dial.push getBucket el).map fun d =>
    { h with dial := d, pushed := el ::ₘ h.pushed }
  | .top => h.dial.top.map fun (_, d) => { h with dial := d }
  | .pop => h.dial.pop.map fun (el, d) => { h with dial := d, popped := el ::ₘ h.popped }

def calls : Runs.System (Option (History T)) (Call T) where
  enabled s c := ∀ h ∈ s, Allowed getBucket maxBucket h.dial c
  step s c := s.bind fun h => h.call getBucket c

instance (s : Option (History T)) (c : Call T) :
    Decidable ((calls getBucket maxBucket).enabled s c) :=
  inferInstanceAs (Decidable (∀ h ∈ s, Allowed getBucket maxBucket h.dial c))

/-- The queue has what was pushed and not popped. -/
structure Correct (h : History T) : Prop where
  size : h.dial.size = h.dial.elements.card
  elements : h.popped + h.dial.elements = h.pushed
  top : h.dial.isEmpty = false → ∃ el d, h.dial.top = some (el, d) ∧ Least getBucket h.dial el
  pop : h.dial.isEmpty = false → ∃ el d, h.dial.pop = some (el, d) ∧ Least getBucket h.dial el

variable {getBucket maxBucket} {h : History T}

theorem size_ne_zero {d : Dial T} (h : d.isEmpty = false) : d.size ≠ 0 := of_decide_eq_false h

/-- No call fails, and the elements are kept. -/
theorem call_eq (hvalid : Valid getBucket maxBucket h.dial)
    (helements : h.popped + h.dial.elements = h.pushed) {c : Call T}
    (hc : Allowed getBucket maxBucket h.dial c) : ∃ h', h.call getBucket c = some h' ∧
      Valid getBucket maxBucket h'.dial ∧ h'.popped + h'.dial.elements = h'.pushed := by
  cases c with
  | push el =>
    obtain ⟨d, hpush, hd, hd'⟩ := hvalid.push hc
    refine ⟨_, by rw [History.call, hpush]; rfl, hd, ?_⟩
    show h.popped + d.elements = el ::ₘ h.pushed
    rw [hd', Multiset.add_cons, helements]
  | top =>
    obtain ⟨el, d, htop, -, hd, hd'⟩ := hvalid.top (size_ne_zero hc)
    refine ⟨_, by rw [History.call, htop]; rfl, hd, ?_⟩
    show h.popped + d.elements = h.pushed
    rw [hd', helements]
  | pop =>
    obtain ⟨el, d, hpop, -, hd, hd'⟩ := hvalid.pop (size_ne_zero hc)
    refine ⟨_, by rw [History.call, hpop]; rfl, hd, ?_⟩
    show el ::ₘ h.popped + d.elements = h.pushed
    rw [Multiset.cons_add, ← Multiset.add_cons, hd', helements]

theorem Valid.correct (hvalid : Valid getBucket maxBucket h.dial)
    (helements : h.popped + h.dial.elements = h.pushed) : Correct getBucket h where
  size := hvalid.size
  elements := helements
  top hne := by
    obtain ⟨el, d, htop, hleast, -⟩ := hvalid.top (size_ne_zero hne)
    exact ⟨el, d, htop, hleast⟩
  pop hne := by
    obtain ⟨el, d, hpop, hleast, -⟩ := hvalid.pop (size_ne_zero hne)
    exact ⟨el, d, hpop, hleast⟩

/-- In every run of allowed calls, the queue is right after each of them. -/
theorem always_correct (getBucket : T → ℕ) (maxBucket : ℕ) (cs : List (Call T))
    (hrun : Runs.Feasible (calls getBucket maxBucket) (some ⟨new maxBucket, 0, 0⟩) cs) :
    Runs.Always (calls getBucket maxBucket) (fun s => ∃ h, s = some h ∧ Correct getBucket h)
      (some ⟨new maxBucket, 0, 0⟩) cs := by
  refine (Runs.always_of_inductive (I := fun s => ∃ h, s = some h ∧
    Valid getBucket maxBucket h.dial ∧ h.popped + h.dial.elements = h.pushed)
    ?_ ⟨_, rfl, valid_new, ?_⟩ hrun).imp ?_
  · rintro _ c ⟨h, rfl, hvalid, helements⟩ hallowed
    exact call_eq hvalid helements (hallowed h rfl)
  · exact elements_new
  · rintro _ ⟨h, rfl, hvalid, helements⟩
    exact ⟨h, rfl, hvalid.correct helements⟩

/-- A push below the cursor. -/
theorem always_correct_lowered : Runs.Always (calls id 5)
    (fun s => ∃ h, s = some h ∧ Correct id h) (some ⟨new 5, 0, 0⟩)
    [.push 4, .top, .push 2, .push 4, .pop, .top, .push 0, .pop, .pop] :=
  always_correct id 5 _ (by decide)

end Runs

end Dial

end Motis
