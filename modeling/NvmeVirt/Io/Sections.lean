/-
# Files of sections

What a snapshot writes is a list of sections, and what it reads is a program that
takes the same sections off the front of the file.  `Reads p bs a` says that the
reader `p` takes exactly the bytes `bs`, whatever follows them, and returns `a`; it
has a rule for each way to put readers together, so that a reader is followed
along its text.
-/

import NvmeVirt.Io.KernelFile

namespace NvmeVirt

open LittleEndian

/-! ### Arrays of words -/

/-- An array of `n` words of `k` bytes in memory. -/
def words (k n : ℕ) (f : ℕ → ℕ) : List UInt8 := (List.range n).flatMap fun i => leBytes k (f i)

/-- Word `i` of an array in memory. -/
def wordAt (k : ℕ) (bs : List UInt8) (i : ℕ) : ℕ := leNat ((bs.drop (k * i)).take k)

@[simp] theorem length_words (k n : ℕ) (f : ℕ → ℕ) : (words k n f).length = k * n :=
  length_flatMap (fun _ => length_leBytes k _) n

theorem wordAt_words {k n i : ℕ} (f : ℕ → ℕ) (hi : i < n) :
    wordAt k (words k n f) i = f i % 256 ^ k := by
  unfold wordAt words
  rw [take_drop_flatMap (fun _ => length_leBytes k _) hi, leNat_leBytes]

/-! ### Writing -/

/-- The bytes of the sections of each entry. -/
theorem flatten_flatMap {ι : Type} (l : List ι) (f : ι → List (List UInt8)) :
    (l.flatMap f).flatten = l.flatMap fun i => (f i).flatten := by
  induction l with
  | nil => rfl
  | cons i l ih => rw [List.flatMap_cons, List.flatten_append, ih, List.flatMap_cons]

/-- A `kernel_write` for each section. -/
def OpenFile.writeSections (calls : FileCalls) (o : OpenFile) (bss : List (List UInt8)) :
    OpenFile :=
  bss.foldl (fun o bs => o.kernelWrite calls bs) o

theorem FileCalls.Transfers.bytes_writeSections {calls : FileCalls} (h : calls.Transfers)
    (bss : List (List UInt8)) (o : OpenFile) :
    (o.writeSections calls bss).bytes = o.bytes ++ bss.flatten := by
  induction bss generalizing o with
  | nil => simp [OpenFile.writeSections]
  | cons bs bss ih =>
    show ((o.kernelWrite calls bs).writeSections calls bss).bytes = _
    rw [ih, h.bytes_kernelWrite, List.flatten_cons, List.append_assoc]

/-! ### Reading -/

/-- Why a reader stops: a copy loop still runs after the rounds allowed to it, the file holds what no
snapshot does and the driver runs out of its memory, or C gives the step no meaning. -/
inductive LoadStop
  | running
  | foreign
  | undefined
  deriving DecidableEq, Repr

/-- A program that reads from an open file and writes to the storage. -/
abbrev Loader (α : Type) := StateT Copying (Except LoadStop) α

namespace Loader

variable {α β : Type}

/-- A `kernel_read` into the memory `old`, which stays where the read is short. -/
def readInto (calls : FileCalls) (old : List UInt8) : Loader (List UInt8) := fun s =>
  let (file, got, _) := s.file.kernelRead calls old.length
  .ok (overlay old got, { s with file := file })

/-- A `kernel_read` into a field of `k` bytes that holds `old`. -/
def number (calls : FileCalls) (k old : ℕ) : Loader ℕ := do
  let bs ← readInto calls (leBytes k old)
  return leNat bs

/-- A `kernel_read` of `k` bytes into a local variable that holds `old`; no other object lies in the
`room` bytes of the stack frame from the variable on. -/
def numberOnStack (calls : FileCalls) (room k old : ℕ) : Loader ℕ := fun s =>
  let (file, got, _) := s.file.kernelRead calls k
  if got.length ≤ room then .ok (leNat (overlay (leBytes k old) got), { s with file := file })
  else .error .undefined

/-- The file holds what is looked for. -/
def found : Option α → Loader α
  | some a => fun s => .ok (a, s)
  | none => fun _ => .error .foreign

/-- The driver stays inside its memory. -/
def within (p : Prop) [Decidable p] : Loader Unit := fun s =>
  if p then .ok ((), s) else .error .foreign

/-- `for (i = 0; i < n; i++) a = body(i, a)`. -/
def loop : ℕ → (ℕ → α → Loader α) → α → Loader α
  | 0, _, a => return a
  | n + 1, body, a => do
    let a ← loop n body a
    body n a

/-- `for (i = 0; i < n; i++) f[i] = read(i, f)`, from `f = old`. -/
def array (n : ℕ) (read : ℕ → (ℕ → α) → Loader α) (old : ℕ → α) : Loader (ℕ → α) :=
  loop n (fun i f => do
    let v ← read i f
    return Function.update f i v) old

/-- `p` takes the bytes `bs` off the file, takes the memory from `m` to `m'` and returns `a`. -/
def Reads (p : Loader α) (bs : List UInt8) (m m' : Mem) (a : α) : Prop :=
  ∀ s rest, s.mem = m → s.file.bytes = bs ++ rest →
    ∃ s', p s = .ok (a, s') ∧ s'.mem = m' ∧ s'.file.bytes = rest

variable {calls : FileCalls} {p : Loader α} {bs cs : List UInt8} {m m' m'' : Mem} {a : α}

theorem Reads.pure (a : α) (m : Mem) : Reads (Pure.pure a) [] m m a :=
  fun s _ hm hs => ⟨s, rfl, hm, hs⟩

/-- **The rule of sequencing.** -/
theorem Reads.bind {f : α → Loader β} {b : β} (hp : Reads p bs m m' a)
    (hf : Reads (f a) cs m' m'' b) : Reads (p >>= f) (bs ++ cs) m m'' b := by
  intro s rest hm hs
  rw [List.append_assoc] at hs
  obtain ⟨s₁, h1, hm₁, hs₁⟩ := hp s _ hm hs
  obtain ⟨s₂, h2, hm₂, hs₂⟩ := hf s₁ rest hm₁ hs₁
  refine ⟨s₂, ?_, hm₂, hs₂⟩
  show (p s >>= fun r => f r.1 r.2) = _
  rw [h1]
  exact h2

/-- A step that takes nothing off the file. -/
theorem Reads.check {f : α → Loader β} {b : β} (hp : Reads p [] m m' a)
    (hf : Reads (f a) cs m' m'' b) : Reads (p >>= f) cs m m'' b :=
  hp.bind hf

/-- The last step of a program. -/
theorem Reads.map {f : α → β} (hp : Reads p bs m m' a) :
    Reads (p >>= fun a => Pure.pure (f a)) bs m m' (f a) := by
  have h := hp.bind (f := fun a => Pure.pure (f a)) (Reads.pure (f a) m')
  rwa [List.append_nil] at h

theorem Reads.congr {a' : α} (hp : Reads p bs m m' a) (hb : cs = bs) (ha : a' = a) :
    Reads p cs m m' a' := by
  subst hb ha
  exact hp

/-- A section is read whole. -/
theorem Reads.readInto (h : calls.Transfers) {old : List UInt8} (hlen : bs.length = old.length)
    (m : Mem) : Reads (readInto calls old) bs m m bs := by
  intro s rest hm hs
  obtain ⟨o, ho, hrest⟩ := h.kernelRead_append s.file hlen hs
  refine ⟨{ s with file := o }, ?_, hm, hrest⟩
  unfold Loader.readInto
  rw [ho]
  dsimp only
  rw [overlay_of_length hlen.symm]

/-- A number is read as it was written, up to its width. -/
theorem Reads.number (h : calls.Transfers) (k old n : ℕ) (m : Mem) :
    Reads (number calls k old) (leBytes k n) m m (n % 256 ^ k) := by
  refine ((Reads.readInto h (by simp) m).map (f := leNat)).congr rfl ?_
  rw [leNat_leBytes]

/-- Where the variable and what may be overwritten behind it have room for the number. -/
theorem Reads.numberOnStack (h : calls.Transfers) {room k : ℕ} (hroom : k ≤ room) (old n : ℕ)
    (m : Mem) : Reads (numberOnStack calls room k old) (leBytes k n) m m (n % 256 ^ k) := by
  intro s rest hm hs
  obtain ⟨o, ho, hrest⟩ := h.kernelRead_append s.file (length_leBytes k n) hs
  refine ⟨{ s with file := o }, ?_, hm, hrest⟩
  unfold Loader.numberOnStack
  rw [ho]
  dsimp only
  rw [if_pos (by rwa [length_leBytes]), overlay_of_length (by simp), leNat_leBytes]

theorem Reads.found {x : Option α} (hx : x = some a) (m : Mem) : Reads (found x) [] m m a := by
  subst hx
  exact Reads.pure a m

theorem Reads.within {c : Prop} [Decidable c] (hc : c) (m : Mem) :
    Reads (within c) [] m m () := by
  intro s rest hm hs
  refine ⟨s, ?_, hm, hs⟩
  unfold Loader.within
  rw [if_pos hc]

/-- **The rule of the loop:** what each round takes, one after the other. -/
theorem Reads.loop {n : ℕ} {body : ℕ → α → Loader α} {g : ℕ → List UInt8} {w : ℕ → Mem}
    {t : ℕ → α}
    (hbody : ∀ i, i < n → Reads (body i (t i)) (g i) (w i) (w (i + 1)) (t (i + 1))) :
    Reads (loop n body (t 0)) ((List.range n).flatMap g) (w 0) (w n) (t n) := by
  induction n with
  | zero => exact Reads.pure _ _
  | succ n ih =>
    rw [List.range_succ, List.flatMap_append, List.flatMap_singleton]
    exact (ih fun i hi => hbody i (by omega)).bind (hbody n (by omega))

/-- **The rule of arrays:** the entries below `n` are read, the others stay. -/
theorem Reads.array {n : ℕ} {read : ℕ → (ℕ → α) → Loader α} {old v : ℕ → α} {g : ℕ → List UInt8}
    {w : ℕ → Mem}
    (hread : ∀ i, i < n → Reads (read i fun j => if j < i then v j else old j) (g i) (w i)
      (w (i + 1)) (v i)) :
    Reads (array n read old) ((List.range n).flatMap g) (w 0) (w n)
      (fun i => if i < n then v i else old i) := by
  refine Reads.loop (t := fun k i => if i < k then v i else old i) fun i hi => ?_
  have hstore := (hread i hi).map (f := Function.update (fun j => if j < i then v j else old j) i)
  refine hstore.congr rfl ?_
  funext j
  by_cases hj : j = i
  · subst hj
    rw [if_pos (Nat.lt_succ_self j), Function.update_self]
  · rw [Function.update_of_ne hj]
    by_cases hlt : j < i
    · rw [if_pos hlt, if_pos (by omega)]
    · rw [if_neg hlt, if_neg (by omega)]

/-- The rule of arrays where the reads leave the storage alone. -/
theorem Reads.fields {n : ℕ} {read : ℕ → (ℕ → α) → Loader α} {old v : ℕ → α} {g : ℕ → List UInt8}
    (hread : ∀ i, i < n → Reads (read i fun j => if j < i then v j else old j) (g i) m m (v i)) :
    Reads (Loader.array n read old) ((List.range n).flatMap g) m m
      (fun i => if i < n then v i else old i) :=
  Reads.array (w := fun _ => m) hread

/-- The rule of arrays where an entry is read by itself; `r i a` is what is made of `a`. -/
theorem Reads.each {n : ℕ} {read : α → Loader α} {g : ℕ → List UInt8} {r : ℕ → α → α}
    (hread : ∀ i, i < n → ∀ a, Reads (read a) (g i) m m (r i a)) (old : ℕ → α) :
    Reads (Loader.array n (fun i f => read (f i)) old) ((List.range n).flatMap g) m m
      (fun i => if i < n then r i (old i) else old i) := by
  refine Reads.fields fun i hi => ?_
  dsimp only
  rw [if_neg (lt_irrefl i)]
  exact hread i hi (old i)

/-! ### Readers that stop -/

/-- On the bytes `bs` the reader `p` stops with `e`, whatever follows them. -/
def StopsOn (p : Loader α) (bs : List UInt8) (m : Mem) (e : LoadStop) : Prop :=
  ∀ s rest, s.mem = m → s.file.bytes = bs ++ rest → p s = .error e

variable {e : LoadStop}

/-- The rest of a program is not reached. -/
theorem StopsOn.bind {f : α → Loader β} (hp : StopsOn p bs m e) : StopsOn (p >>= f) bs m e := by
  intro s rest hm hs
  show (p s >>= fun r => f r.1 r.2) = _
  rw [hp s rest hm hs]
  rfl

/-- The rest of the bytes is not read. -/
theorem StopsOn.append (hp : StopsOn p bs m e) : StopsOn p (bs ++ cs) m e := by
  intro s rest hm hs
  exact hp s (cs ++ rest) hm (by rw [hs, List.append_assoc])

/-- The first part of a program is read, and the second one stops. -/
theorem Reads.stops {f : α → Loader β} (hp : Reads p bs m m' a) (hf : StopsOn (f a) cs m' e) :
    StopsOn (p >>= f) (bs ++ cs) m e := by
  intro s rest hm hs
  rw [List.append_assoc] at hs
  obtain ⟨s₁, h1, hm₁, hs₁⟩ := hp s _ hm hs
  show (p s >>= fun r => f r.1 r.2) = _
  rw [h1]
  exact hf s₁ rest hm₁ hs₁

/-- Where another object lies behind the variable. -/
theorem StopsOn.numberOnStack (h : calls.Transfers) {room k : ℕ} (hroom : room < k) (old n : ℕ)
    (m : Mem) : StopsOn (numberOnStack calls room k old) (leBytes k n) m .undefined := by
  intro s rest hm hs
  obtain ⟨o, ho, -⟩ := h.kernelRead_append s.file (length_leBytes k n) hs
  unfold Loader.numberOnStack
  rw [ho]
  dsimp only
  rw [if_neg (by rw [length_leBytes]; omega)]

/-- An array stops at its first entry. -/
theorem StopsOn.array {n : ℕ} (hn : 0 < n) {read : ℕ → (ℕ → α) → Loader α} {old : ℕ → α}
    {g : ℕ → List UInt8} (h : StopsOn (read 0 old) (g 0) m e) :
    StopsOn (array n read old) ((List.range n).flatMap g) m e := by
  induction n with
  | zero => omega
  | succ n ih =>
    rw [List.range_succ, List.flatMap_append, List.flatMap_singleton]
    cases n with
    | zero => exact (Reads.pure old m).stops h.bind
    | succ n => exact (ih (Nat.succ_pos n)).append.bind

end Loader

end NvmeVirt
