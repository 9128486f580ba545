import Mathlib.Algebra.GroupWithZero.Nat
import Mathlib.Data.Int.Notation
import Mathlib.Data.List.Perm.Basic
import Motis.Lib.Runs

/-! Batch mode: a file of queries, one on each line, answered in any order.

    `2 * numThreads` queries are injected at the start, and each response injects the next one:

        loop ──read──▶ onMsg ──accept──▶ loop …… idle
                         │                          │
                         └─answer, throw─▶ inject ◀─┘ response

    A line that cannot be parsed is answered by an error at once, from where it was read. The event
    loop is stopped when the input is exhausted and nothing is in flight, and by the destructor of
    the injector, which runs when neither a handler nor a callback holds it any more.

    The handlers of the event loop run one after the other. A callback is called at most once,
    later or by `onMsg` itself, and not at all when `onMsg` throws. -/

namespace Motis.Launcher
open Runs

variable {Msg Err : Type}

/-- What the injector uses of messages. -/
structure MessageLibrary (Msg Err : Type) where
  makeMsg : String → Except Err Msg
  id : Msg → ℤ
  mutateId : Msg → ℤ → Msg
  makeErrorMsg : Err → Msg
  makeSuccessMsg : Msg
  toJson : Msg → String

/-- A callback given to `onMsg`, with the number of the line it belongs to. -/
structure Callback where
  line : ℕ
  id : ℤ
  deriving DecidableEq, Repr

structure OutputLine where
  line : ℕ
  text : String
  deriving DecidableEq, Repr

/-- Where the injector is; `left` iterations of the loop in `start` are to come. -/
inductive Control where
  /-- The loop calls `injectMsg`. -/
  | loop (left : ℕ)
  /-- `onResponse` calls `injectMsg`. -/
  | inject (left : ℕ)
  /-- Inside of `receiver_.onMsg`. -/
  | onMsg (cb : Callback) (left : ℕ)
  | idle
  deriving DecidableEq, Repr

structure QueryInjector where
  /-- The lines `getline` has not delivered yet. -/
  input : List String
  inFlight : UInt32 := 0
  output : List OutputLine := []
  /-- How many lines have been read. -/
  read : ℕ := 0
  /-- The callbacks that have been handed out and not called. -/
  pending : List Callback := []
  control : Control := .idle
  /-- The event loop is stopped. -/
  stopped : Bool := false

namespace QueryInjector

/-- The end of a handler; the last callback gone, the destructor stops the event loop. -/
def leave (s : QueryInjector) : QueryInjector :=
  { s with control := .idle, stopped := s.stopped || s.pending.isEmpty }

/-- The loop in `start`, after a call of `injectMsg` that returned true. -/
def resume (s : QueryInjector) : ℕ → QueryInjector
  | 0 => s.leave
  | left + 1 => { s with control := .loop left }

/-- `start`, up to its first call of `injectMsg`. -/
def start (lines : List String) (numThreads : Int32) : QueryInjector :=
  resume { input := lines } (2 * numThreads.toInt).toNat

variable (lib : MessageLibrary Msg Err)

def writeResponse (s : QueryInjector) (cb : Callback) (res : Option Msg) (ec : Option Err) :
    QueryInjector :=
  let response :=
    match ec, res with
    | some ec, _ => lib.makeErrorMsg ec
    | none, some res => res
    | none, none => lib.makeSuccessMsg
  { s with output := s.output ++ [⟨cb.line, lib.toJson (lib.mutateId response cb.id)⟩] }

def onResponse (s : QueryInjector) (cb : Callback) (res : Option Msg) (ec : Option Err)
    (left : ℕ) : QueryInjector :=
  let s := { s with inFlight := s.inFlight - 1, pending := s.pending.erase cb }
  { s.writeResponse lib cb res ec with control := .inject left }

/-- `injectMsg`, up to the call of `onMsg`; its result only matters to the loop. -/
def injectMsg (s : QueryInjector) (fromLoop : Bool) (left : ℕ) : QueryInjector :=
  match s.input with
  | [] =>
    let s := { s with stopped := s.stopped || s.inFlight == 0 }
    if fromLoop then s.leave else s.resume left
  | line :: rest =>
    let s' := { s with input := rest, read := s.read + 1 }
    match lib.makeMsg line with
    | .ok next =>
      let cb : Callback := ⟨s.read, lib.id next⟩
      { s' with
        inFlight := s.inFlight + 1
        pending := s.pending ++ [cb]
        control := .onMsg cb left }
    -- the exception left `next` empty and the counter as it was
    | .error ec => s'.onResponse lib ⟨s.read, -1⟩ none (some ec) left

end QueryInjector

inductive InjectorEvent (Msg Err : Type) where
  | inject
  /-- `onMsg` returns; the response comes later. -/
  | accept
  /-- `onMsg` calls the callback itself. -/
  | answer (res : Option Msg) (ec : Option Err)
  /-- `onMsg` throws a `system_error`. -/
  | throw (ec : Option Err)
  /-- The event loop calls a callback. -/
  | response (cb : Callback) (res : Option Msg) (ec : Option Err)

def InjectorEvent.Enabled (s : QueryInjector) : InjectorEvent Msg Err → Prop
  | .inject => ∃ left, s.control = .loop left ∨ s.control = .inject left
  | .accept | .answer _ _ | .throw _ => ∃ cb left, s.control = .onMsg cb left
  | .response cb _ _ => s.control = .idle ∧ s.stopped = false ∧ cb ∈ s.pending

def QueryInjector.handle (lib : MessageLibrary Msg Err) (s : QueryInjector) :
    InjectorEvent Msg Err → QueryInjector
  | .inject =>
    match s.control with
    | .loop left => s.injectMsg lib true left
    | .inject left => s.injectMsg lib false left
    | _ => s
  | .accept =>
    match s.control with
    | .onMsg _ left => s.resume left
    | _ => s
  | .answer res ec =>
    match s.control with
    | .onMsg cb left => s.onResponse lib cb res ec left
    | _ => s
  | .throw ec =>
    match s.control with
    | .onMsg cb left => s.onResponse lib cb none ec left
    | _ => s
  | .response cb res ec => s.onResponse lib cb res ec 0

def batch (lib : MessageLibrary Msg Err) : System QueryInjector (InjectorEvent Msg Err) where
  enabled := fun s e => e.Enabled s
  step := fun s e => s.handle lib e

/-- What the injector promises about the lines of its input. -/
structure Accounting (lines : List String) (s : QueryInjector) : Prop where
  inFlight : s.inFlight.toNat = s.pending.length
  /-- Every line that was read has been answered once or is in flight. -/
  once : (s.output.map (·.line) ++ s.pending.map (·.line)).Perm (List.range s.read)
  stopped : s.stopped = true → s.input = [] ∧ s.pending = []
  complete : s.stopped = true → (s.output.map (·.line)).Perm (List.range lines.length)
  /-- While the event loop runs there is a response to wait for. -/
  waiting : s.control = .idle → s.stopped = false → s.pending ≠ []

/-- The line that is read can be parsed. -/
def Parseable (lib : MessageLibrary Msg Err) (s : QueryInjector) : InjectorEvent Msg Err → Prop
  | .inject => ∀ line ∈ s.input.head?, ∃ msg, lib.makeMsg line = .ok msg
  | _ => True

/-! ### The invariant -/

/-- How many requests can be in flight where the injector is, when `k` is the limit. -/
def Control.Room (k pending : ℕ) : Control → Prop
  | .loop left | .inject left => pending + left < k
  | .onMsg _ left => pending + left ≤ k
  | .idle => pending ≤ k

structure Sound (lines : List String) (k : ℕ) (s : QueryInjector) : Prop where
  inFlight : s.inFlight.toNat = s.pending.length
  once : (s.output.map (·.line) ++ s.pending.map (·.line)).Perm (List.range s.read)
  stopped : s.stopped = true → s.input = [] ∧ s.pending = []
  waiting : s.control = .idle → s.stopped = false → s.pending ≠ []
  total : s.read + s.input.length = lines.length
  handed : ∀ cb left, s.control = .onMsg cb left → cb ∈ s.pending
  room : s.control.Room k s.pending.length

variable {lib : MessageLibrary Msg Err} {lines : List String} {k left : ℕ} {s : QueryInjector}

theorem Sound.accounting (h : Sound lines k s) : Accounting lines s where
  inFlight := h.inFlight
  once := h.once
  stopped := h.stopped
  complete := fun hstopped => by
    obtain ⟨hin, hpending⟩ := h.stopped hstopped
    have honce := h.once
    have htotal := h.total
    rw [hin, List.length_nil, Nat.add_zero] at htotal
    rwa [hpending, List.map_nil, List.append_nil, htotal] at honce
  waiting := h.waiting

/-! ### Steps -/

section Steps

/-- A handler ends soundly when it leaves a callback behind or has exhausted the input. -/
theorem Sound.resume (h : Sound lines k s) (hend : s.pending ≠ [] ∨ s.input = [])
    (hroom : s.pending.length + left ≤ k) : Sound lines k (s.resume left) := by
  cases left with
  | zero =>
    refine
      { inFlight := h.inFlight
        once := h.once
        stopped := fun hstopped => ?_
        waiting := fun _ hstopped hpending => ?_
        total := h.total
        handed := nofun
        room := hroom }
    · rcases (Bool.or_eq_true _ _).mp hstopped with hs | hs
      · exact h.stopped hs
      · have hpending : s.pending = [] := List.isEmpty_iff.mp hs
        exact ⟨hend.resolve_left fun hne => hne hpending, hpending⟩
    · have hrunning : (s.stopped || s.pending.isEmpty) = false := hstopped
      have hempty : s.pending.isEmpty = true := List.isEmpty_iff.mpr hpending
      rw [hempty, Bool.or_true] at hrunning
      cases hrunning
  | succ left =>
    exact { h with waiting := nofun, handed := nofun, room := hroom }

theorem Sound.start (lines : List String) (numThreads : Int32)
    (h : 0 < numThreads.toInt ∨ lines = []) :
    Sound lines (2 * numThreads.toInt).toNat (QueryInjector.start lines numThreads) := by
  rw [QueryInjector.start]
  cases hk : (2 * numThreads.toInt).toNat with
  | zero =>
    have hlines : lines = [] := h.resolve_left (by omega)
    subst hlines
    exact
      { inFlight := rfl
        once := .nil
        stopped := fun _ => ⟨rfl, rfl⟩
        waiting := nofun
        total := rfl
        handed := nofun
        room := Nat.zero_le _ }
  | succ left =>
    exact
      { inFlight := rfl
        once := .nil
        stopped := nofun
        waiting := nofun
        total := Nat.zero_add _
        handed := nofun
        room := by simp [QueryInjector.resume, Control.Room] }

/-- A response to a request in flight. -/
theorem Sound.onResponse (h : Sound lines k s) {cb : Callback} (hcb : cb ∈ s.pending)
    (hroom : s.pending.length + left ≤ k) (res : Option Msg) (ec : Option Err) :
    Sound lines k (s.onResponse lib cb res ec left) := by
  have hlength : (s.pending.erase cb).length + 1 = s.pending.length := by
    rw [List.length_erase_of_mem hcb]
    have := List.length_pos_of_mem hcb
    omega
  refine
    { inFlight := ?_
      once := ?_
      stopped := fun hstopped => ?_
      waiting := nofun
      total := h.total
      handed := nofun
      room := ?_ }
  · change (s.inFlight - 1).toNat = (s.pending.erase cb).length
    rw [UInt32.toNat_sub_of_le, h.inFlight]
    · exact Nat.sub_eq_of_eq_add hlength.symm
    · rw [UInt32.le_iff_toNat_le, h.inFlight]
      exact List.length_pos_of_mem hcb
  · have hperm := ((List.perm_cons_erase hcb).map (·.line)).append_left (s.output.map (·.line))
    change (List.map OutputLine.line (s.output ++ [_]) ++ _).Perm (List.range s.read)
    rw [List.map_append, List.append_assoc]
    exact hperm.symm.trans h.once
  · have hpending := (h.stopped hstopped).2
    rw [hpending] at hcb
    cases hcb
  · change (s.pending.erase cb).length + left < k
    omega

/-- The end of the input: what is in flight decides about the event loop. -/
theorem Sound.exhausted (h : Sound lines k s) (hin : s.input = []) :
    Sound lines k { s with stopped := s.stopped || s.inFlight == 0 } := by
  refine { h with stopped := fun hstopped => ⟨hin, ?_⟩, waiting := fun hcontrol hstopped => ?_ }
  · rcases (Bool.or_eq_true _ _).mp hstopped with hs | hs
    · exact (h.stopped hs).2
    · have hzero := h.inFlight
      rw [eq_of_beq hs] at hzero
      exact List.length_eq_zero_iff.mp hzero.symm
  · exact h.waiting hcontrol ((Bool.or_eq_false_iff).mp hstopped).1

/-- A query is read and handed over. -/
theorem Sound.dispatch (h : Sound lines k s) (hk : k < 2 ^ 32) {line : String}
    {rest : List String} (hin : s.input = line :: rest) (hroom : s.pending.length + left < k)
    (cb : Callback) (hcb : cb.line = s.read) :
    Sound lines k { s with
      input := rest, read := s.read + 1, inFlight := s.inFlight + 1
      pending := s.pending ++ [cb], control := .onMsg cb left } := by
  have hlength : (s.pending ++ [cb]).length = s.pending.length + 1 := List.length_append
  refine
    { inFlight := ?_
      once := ?_
      stopped := fun hstopped => ?_
      waiting := nofun
      total := ?_
      handed := fun cb' left' hcontrol => ?_
      room := ?_ }
  · rw [UInt32.toNat_add, h.inFlight, hlength]
    exact Nat.mod_eq_of_lt (by simp; omega)
  · change (_ ++ (s.pending ++ [cb]).map (·.line)).Perm (List.range (s.read + 1))
    rw [List.map_append, ← List.append_assoc, List.range_succ]
    exact hcb ▸ h.once.append_right [cb.line]
  · have hempty := (h.stopped hstopped).1
    rw [hin] at hempty
    cases hempty
  · have htotal := h.total
    rw [hin, List.length_cons] at htotal
    change s.read + 1 + rest.length = lines.length
    omega
  · injection hcontrol with hcb'
    rw [← hcb']
    exact List.mem_append_right _ (List.mem_singleton_self _)
  · change (s.pending ++ [cb]).length + left ≤ k
    omega

theorem Sound.injectMsg (h : Sound lines k s) (hk : k < 2 ^ 32) (fromLoop : Bool)
    (hroom : s.pending.length + left < k)
    (hline : ∀ line ∈ s.input.head?, ∃ msg, lib.makeMsg line = .ok msg) :
    Sound lines k (s.injectMsg lib fromLoop left) := by
  rw [QueryInjector.injectMsg]
  split
  · rename_i hin
    have hexhausted := h.exhausted hin
    cases fromLoop with
    | true => exact @Sound.resume lines k 0 _ hexhausted (.inr hin) (Nat.le_of_lt (Nat.lt_of_le_of_lt (Nat.le_add_right _ _) hroom))
    | false => exact hexhausted.resume (.inr hin) (Nat.le_of_lt hroom)
  · rename_i line rest hin
    rw [hin] at hline
    obtain ⟨msg, hmsg⟩ := hline line rfl
    simp only [hmsg]
    exact h.dispatch hk hin hroom ⟨s.read, lib.id msg⟩ rfl

theorem Sound.step (h : Sound lines k s) (hk : k < 2 ^ 32) {e : InjectorEvent Msg Err}
    (henabled : e.Enabled s) (hparse : Parseable lib s e) : Sound lines k (s.handle lib e) := by
  have hroom := h.room
  cases e with
  | inject =>
    obtain ⟨left, hcontrol | hcontrol⟩ := henabled <;> rw [hcontrol] at hroom <;>
      simp only [QueryInjector.handle, hcontrol] <;>
      exact h.injectMsg hk _ hroom hparse
  | accept =>
    obtain ⟨cb, left, hcontrol⟩ := henabled
    rw [hcontrol] at hroom
    simp only [QueryInjector.handle, hcontrol]
    exact h.resume (.inl (List.ne_nil_of_mem (h.handed cb left hcontrol))) hroom
  | answer res ec =>
    obtain ⟨cb, left, hcontrol⟩ := henabled
    rw [hcontrol] at hroom
    simp only [QueryInjector.handle, hcontrol]
    exact h.onResponse (h.handed cb left hcontrol) hroom res ec
  | throw ec =>
    obtain ⟨cb, left, hcontrol⟩ := henabled
    rw [hcontrol] at hroom
    simp only [QueryInjector.handle, hcontrol]
    exact h.onResponse (h.handed cb left hcontrol) hroom none ec
  | response cb res ec =>
    obtain ⟨hcontrol, -, hcb⟩ := henabled
    rw [hcontrol] at hroom
    exact h.onResponse hcb hroom res ec

theorem Sound.not_mem_pending (h : Sound lines k s) (id : ℤ) :
    (⟨s.read, id⟩ : Callback) ∉ s.pending := by
  intro hmem
  have hline : s.read ∈ List.range s.read :=
    h.once.subset (List.mem_append_right _ (List.mem_map_of_mem hmem))
  exact Nat.lt_irrefl _ (List.mem_range.mp hline)

/-- The answer to a line that cannot be parsed takes from the counter what was never added. -/
theorem Sound.injectMsg_unparseable (h : Sound lines k s) {line : String} {rest : List String}
    (hin : s.input = line :: rest) {ec : Err} (hec : lib.makeMsg line = .error ec)
    (fromLoop : Bool) : ¬ Accounting lines (s.injectMsg lib fromLoop left) := by
  intro hafter
  have hinFlight : (s.inFlight - 1).toNat = s.inFlight.toNat := by
    have hcount := hafter.inFlight
    simp only [QueryInjector.injectMsg, hin, hec] at hcount
    rw [h.inFlight, ← List.erase_of_not_mem (h.not_mem_pending (-1))]
    exact hcount
  have hsub := UInt32.toNat_sub s.inFlight 1
  rw [hinFlight] at hsub
  have hlt := s.inFlight.toNat_lt
  have hone : (1 : UInt32).toNat = 1 := rfl
  omega

theorem Sound.parseable (h : Sound lines k s) {e : InjectorEvent Msg Err}
    (henabled : e.Enabled s) (hafter : Accounting lines (s.handle lib e)) :
    Parseable lib s e := by
  cases e with
  | inject =>
    intro line hline
    obtain ⟨rest, hin⟩ := List.head?_eq_some_iff.mp hline
    cases hmsg : lib.makeMsg line with
    | ok msg => exact ⟨msg, rfl⟩
    | error ec =>
      exfalso
      obtain ⟨left, hcontrol | hcontrol⟩ := henabled <;>
        simp only [QueryInjector.handle, hcontrol] at hafter <;>
        exact h.injectMsg_unparseable hin hmsg _ hafter
  | _ => trivial

end Steps

/-! ### Runs -/

/-- CORRECT: in a run over a file of queries the counter is that of the requests in flight, every
    line is answered once, and the event loop is stopped after the last answer, if and only if
    every line that is read can be parsed and there are threads (or no lines) at all. -/
theorem accounting_iff_parseable (lib : MessageLibrary Msg Err) (lines : List String)
    (numThreads : Int32) (es : List (InjectorEvent Msg Err))
    (hrun : Feasible (batch lib) (.start lines numThreads) es) :
    Always (batch lib) (Accounting lines) (.start lines numThreads) es ↔
      (0 < numThreads.toInt ∨ lines = []) ∧
        Each (batch lib) (Parseable lib) (.start lines numThreads) es := by
  by_cases hthreads : 0 < numThreads.toInt ∨ lines = []
  · rw [and_iff_right hthreads]
    have hk : (2 * numThreads.toInt).toNat < 2 ^ 32 := by
      have := numThreads.toInt_lt
      omega
    exact always_iff_each (I := Sound lines (2 * numThreads.toInt).toNat)
      (fun _ _ h => h.step hk) (fun _ h => h.accounting) (fun _ _ h => h.parseable)
      (.start lines numThreads hthreads) hrun
  · refine iff_of_false (fun h => ?_) fun h => hthreads h.1
    -- nothing is injected, and the injector goes with its only handler
    have hnone : (2 * numThreads.toInt).toNat = 0 := by omega
    have hstopped := h.head.stopped
    rw [QueryInjector.start, hnone] at hstopped
    exact hthreads (.inr (hstopped rfl).1)

/-! ### Progress -/

section Progress

/-- How much the injector still has to do. -/
def Control.work : Control → ℕ
  | .loop left | .inject left => left + 1
  | .onMsg _ left => left + 2
  | .idle => 0

def QueryInjector.work (s : QueryInjector) : ℕ :=
  4 * s.input.length + 2 * s.pending.length + s.control.work

theorem work_eq {c : Control} (hcontrol : s.control = c) :
    s.work = 4 * s.input.length + 2 * s.pending.length + c.work := hcontrol ▸ rfl

theorem work_resume_le (s : QueryInjector) (left : ℕ) :
    (s.resume left).work ≤ 4 * s.input.length + 2 * s.pending.length + left := by
  cases left with
  | zero => exact Nat.le_refl _
  | succ left => exact Nat.le_refl _

theorem work_onResponse (s : QueryInjector) (cb : Callback) (res : Option Msg) (ec : Option Err)
    (left : ℕ) : (s.onResponse lib cb res ec left).work =
      4 * s.input.length + 2 * (s.pending.erase cb).length + (left + 1) := rfl

theorem work_onResponse_lt {cb : Callback} (hcb : cb ∈ s.pending) (res : Option Msg)
    (ec : Option Err) (left : ℕ) : (s.onResponse lib cb res ec left).work <
      4 * s.input.length + 2 * s.pending.length + left := by
  have hpos := List.length_pos_of_mem hcb
  have hlength := List.length_erase_of_mem hcb
  rw [work_onResponse]
  omega

theorem work_injectMsg_lt (s : QueryInjector) (fromLoop : Bool) (left : ℕ) :
    (s.injectMsg lib fromLoop left).work <
      4 * s.input.length + 2 * s.pending.length + (left + 1) := by
  rw [QueryInjector.injectMsg]
  split
  · rename_i hin
    cases fromLoop with
    | true => exact Nat.lt_of_le_of_lt (work_resume_le _ 0) (by simp [hin])
    | false => exact Nat.lt_of_le_of_lt (work_resume_le _ left) (by simp [hin])
  · rename_i line rest hin
    rw [hin, List.length_cons]
    cases hmsg : lib.makeMsg line with
    | ok msg =>
      simp only [QueryInjector.work, Control.work, List.length_append, List.length_singleton]
      omega
    | error ec =>
      have herase := (s.pending.erase_sublist (a := ⟨s.read, -1⟩)).length_le
      dsimp only
      rw [work_onResponse]
      dsimp only
      omega

/-- Every step gets the injector closer to its end. -/
theorem Sound.work_lt (h : Sound lines k s) {e : InjectorEvent Msg Err} (henabled : e.Enabled s) :
    (s.handle lib e).work < s.work := by
  cases e with
  | inject =>
    obtain ⟨left, hcontrol | hcontrol⟩ := henabled <;> rw [work_eq hcontrol] <;>
      simp only [QueryInjector.handle, hcontrol] <;>
      exact work_injectMsg_lt s _ left
  | accept =>
    obtain ⟨cb, left, hcontrol⟩ := henabled
    rw [work_eq hcontrol]
    simp only [QueryInjector.handle, hcontrol]
    exact Nat.lt_of_le_of_lt (work_resume_le s left) (by simp [Control.work])
  | answer res ec =>
    obtain ⟨cb, left, hcontrol⟩ := henabled
    rw [work_eq hcontrol]
    simp only [QueryInjector.handle, hcontrol]
    exact Nat.lt_trans (work_onResponse_lt (h.handed cb left hcontrol) res ec left)
      (by simp [Control.work])
  | throw ec =>
    obtain ⟨cb, left, hcontrol⟩ := henabled
    rw [work_eq hcontrol]
    simp only [QueryInjector.handle, hcontrol]
    exact Nat.lt_trans (work_onResponse_lt (h.handed cb left hcontrol) none ec left)
      (by simp [Control.work])
  | response cb res ec =>
    obtain ⟨hcontrol, -, hcb⟩ := henabled
    rw [work_eq hcontrol]
    exact work_onResponse_lt hcb res ec 0

/-- Only a stopped event loop has nothing more to do. -/
theorem Sound.stopped_of_stuck (h : Sound lines k s)
    (hstuck : ∀ e : InjectorEvent Msg Err, ¬ e.Enabled s) : s.stopped = true := by
  cases hcontrol : s.control with
  | loop left => exact absurd ⟨left, .inl hcontrol⟩ (hstuck .inject)
  | inject left => exact absurd ⟨left, .inr hcontrol⟩ (hstuck .inject)
  | onMsg cb left => exact absurd ⟨cb, left, hcontrol⟩ (hstuck .accept)
  | idle =>
    by_contra hstopped
    have hrunning : s.stopped = false := by simpa using hstopped
    obtain ⟨cb, hcb⟩ := List.exists_mem_of_ne_nil _ (h.waiting hcontrol hrunning)
    exact hstuck (.response cb none none) ⟨hcontrol, hrunning, hcb⟩

end Progress

/-- However the queries are answered, a run ends, and then each line has its answer. -/
theorem run_ends (hk : k < 2 ^ 32) {es : List (InjectorEvent Msg Err)} (h : Sound lines k s)
    (hrun : Feasible (batch lib) s es) (hparse : Each (batch lib) (Parseable lib) s es) :
    es.length ≤ s.work ∧
      ((∀ e : InjectorEvent Msg Err, ¬ e.Enabled (exec (batch lib) s es)) →
        ((exec (batch lib) s es).output.map (·.line)).Perm (List.range lines.length)) := by
  induction es generalizing s with
  | nil => exact ⟨Nat.zero_le _, fun hstuck => h.accounting.complete (h.stopped_of_stuck hstuck)⟩
  | cons e es ih =>
    have hrest := ih (h.step hk hrun.1 hparse.1) hrun.2 hparse.2
    exact ⟨Nat.succ_le_of_lt (Nat.lt_of_le_of_lt hrest.1 (h.work_lt hrun.1)), hrest.2⟩

/-- A query for the list of operations. -/
def apiQuery : String := "\x7b\"destination\": \x7b\"target\": \"/api\"\x7d\x7d"

/-- The message library on `apiQuery` and on lines that are no messages. -/
def exampleLibrary : MessageLibrary (ℤ × String) String where
  makeMsg line := if line = apiQuery then .ok (1, "MotisNoMessage") else .error "unable_to_parse"
  id := Prod.fst
  mutateId msg id := (id, msg.2)
  makeErrorMsg ec := (1, ec)
  makeSuccessMsg := (1, "MotisSuccess")
  toJson := Prod.snd

/-- Two queries, the second answered before the first. -/
theorem accounting_iff_parseable_two_queries :
    Always (batch exampleLibrary) (Accounting [apiQuery, apiQuery])
        (.start [apiQuery, apiQuery] 1)
        [.inject, .accept, .inject, .accept, .response ⟨1, 1⟩ none none, .inject,
          .response ⟨0, 1⟩ none none, .inject] ↔
      (0 < (1 : Int32).toInt ∨ [apiQuery, apiQuery] = []) ∧
        Each (batch exampleLibrary) (Parseable exampleLibrary) (.start [apiQuery, apiQuery] 1)
          [.inject, .accept, .inject, .accept, .response ⟨1, 1⟩ none none, .inject,
            .response ⟨0, 1⟩ none none, .inject] :=
  accounting_iff_parseable exampleLibrary _ 1 _
    ⟨⟨1, .inl rfl⟩, ⟨_, _, rfl⟩, ⟨0, .inl rfl⟩, ⟨_, _, rfl⟩, ⟨rfl, rfl, by decide⟩, ⟨0, .inr rfl⟩,
      ⟨rfl, rfl, by decide⟩, ⟨0, .inr rfl⟩, trivial⟩

/-- After an empty line the counter is one too low: at the end of the input it is zero, and the
    event loop is stopped with the second line unanswered. -/
theorem empty_line_loses_query :
    Feasible (batch exampleLibrary) (.start ["", apiQuery] 1)
      [.inject, .inject, .accept, .inject] ∧
    ¬ Always (batch exampleLibrary) (Accounting ["", apiQuery]) (.start ["", apiQuery] 1)
      [.inject, .inject, .accept, .inject] := by
  refine ⟨⟨⟨1, .inl rfl⟩, ⟨1, .inr rfl⟩, ⟨_, _, rfl⟩, ⟨0, .inl rfl⟩, trivial⟩, fun h => ?_⟩
  have hlost : [(⟨1, 1⟩ : Callback)] = [] := (h.last.stopped rfl).2
  cases hlost

end Motis.Launcher
