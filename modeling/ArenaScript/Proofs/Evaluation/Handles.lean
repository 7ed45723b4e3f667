import ArenaScript.Engine.Module
import ArenaScript.Proofs.Arena.Ledger
import ArenaScript.Proofs.Types.Growth

/-!
# Handles of known types

Types are never removed, so a handle that once stood for a type always does.
Data is known to a table of `n` types if all the type handles in it are smaller
than `n` and all the addresses in it are words.  Known arenas are well-formed as
well.
-/

namespace ArenaScript

/-- Data that may contain type handles and addresses. -/
class Handles (α : Type) where
  Known : Nat → α → Prop
  mono : ∀ {m n : Nat} {a : α}, m ≤ n → Known m a → Known n a

namespace Handles

variable {α β : Type} {m n : Nat}

instance (priority := low) : Handles α := ⟨fun _ _ => True, fun _ _ => trivial⟩

instance : Handles TypeId :=
  ⟨fun n id => id.index < n, fun h hid => Nat.lt_of_lt_of_le hid h⟩

instance [Handles α] : Handles (Option α) :=
  ⟨fun n o => ∀ a, o = some a → Known n a, fun h ho a ha => mono h (ho a ha)⟩

instance [Handles α] : Handles (List α) :=
  ⟨fun n l => ∀ a ∈ l, Known n a, fun h hl a ha => mono h (hl a ha)⟩

instance [Handles α] [Handles β] : Handles (α × β) :=
  ⟨fun n p => Known n p.1 ∧ Known n p.2, fun h hp => ⟨mono h hp.1, mono h hp.2⟩⟩

instance [Handles α] : Handles (Bindings α) :=
  ⟨fun n b => ∀ name a, b.get? name = some a → Known n a, fun h hb name a ha =>
    mono h (hb name a ha)⟩

@[simp] theorem known_none [Handles α] : Known n (none : Option α) := by
  intro a ha
  cases ha

@[simp] theorem known_some [Handles α] {a : α} :
    Known n (some a) ↔ Known n a := by
  constructor
  · intro h
    exact h a rfl
  · intro h b hb
    cases hb
    exact h

@[simp] theorem known_nil [Handles α] : Known n ([] : List α) := by
  intro a ha
  cases ha

@[simp] theorem known_cons [Handles α] {a : α} {l : List α} :
    Known n (a :: l) ↔ Known n a ∧ Known n l :=
  List.forall_mem_cons

@[simp] theorem known_append [Handles α] {l k : List α} :
    Known n (l ++ k) ↔ Known n l ∧ Known n k :=
  List.forall_mem_append

@[simp] theorem known_pair [Handles α] [Handles β] {a : α} {b : β} :
    Known n (a, b) ↔ Known n a ∧ Known n b :=
  Iff.rfl

@[simp] theorem known_map [Handles β] {f : α → β} {l : List α} :
    Known n (l.map f) ↔ ∀ a ∈ l, Known n (f a) :=
  List.forall_mem_map

theorem known_getD [Handles α] {o : Option α} {a : α} (ho : Known n o)
    (ha : Known n a) : Known n (o.getD a) := by
  cases o with
  | none => exact ha
  | some b => exact ho b rfl

theorem known_bind [Handles β] {o : Option α} {f : α → Option β}
    (h : ∀ a, o = some a → Known n (f a)) : Known n (o.bind f) := by
  cases o with
  | none => exact known_none
  | some a => exact h a rfl

theorem known_optionMap [Handles β] {o : Option α} {f : α → β}
    (h : ∀ a, o = some a → Known n (f a)) : Known n (o.map f) := by
  cases o with
  | none => exact known_none
  | some a => exact known_some.2 (h a rfl)

theorem known_findSome? [Handles β] {f : α → Option β} {l : List α}
    (h : ∀ a ∈ l, Known n (f a)) : Known n (l.findSome? f) := by
  intro b hb
  obtain ⟨a, ha, hfa⟩ := List.exists_of_findSome?_eq_some hb
  exact h a ha b hfa

theorem known_find? [Handles α] {p : α → Bool} {l : List α} (h : Known n l) :
    Known n (l.find? p) :=
  fun a ha => h a (List.mem_of_find?_eq_some ha)

theorem known_put [Handles α] {b : Bindings α} {name : String} {a : α}
    (hb : Known n b) (ha : Known n a) : Known n (b.put name a) := by
  intro other c hc
  rw [Bindings.get?_put] at hc
  split at hc
  · cases hc
    exact ha
  · exact hb other c hc

theorem known_empty [Handles α] : Known n (Bindings.empty : Bindings α) := by
  intro name a ha
  cases ha

/-! ## Sorts of data -/

instance : Handles Value :=
  ⟨fun n v => Known n v.type ∧ v.addr < Word.modulus, fun h hv =>
    ⟨mono h hv.1, hv.2⟩⟩

instance : Handles Slot :=
  ⟨fun n slot => Known n slot.type, fun h hslot => mono h hslot⟩

instance : Handles Param := ⟨fun n p => Known n p.type, fun h hp => mono h hp⟩

instance : Handles TemplateArg where
  Known n
    | .type t => Known n t
    | .int _ => True
  mono {_ _ a} h := by
    cases a with
    | type t => exact mono h
    | int v => exact id

instance : Handles TemplateBinding :=
  ⟨fun n b => Known n b.arg ∧ Known n b.valueType, fun h hb =>
    ⟨mono h hb.1, mono h hb.2⟩⟩

instance : Handles Field := ⟨fun n f => Known n f.type, fun h hf => mono h hf⟩

instance : Handles Structural :=
  ⟨fun n s => Known n s.fields ∧ Known n s.origin, fun h hs =>
    ⟨mono h hs.1, mono h hs.2⟩⟩

instance : Handles Shape where
  Known n
    | .structural body => Known n body
    | .template _ args => Known n args
    | .core _ | .callable _ => True
  mono {_ _ a} h := by
    cases a with
    | structural body => exact mono h
    | template kind args => exact mono h
    | core kind => exact id
    | callable kind => exact id

instance : Handles TypeEntry :=
  ⟨fun n e => Known n e.shape, fun h he => mono h he⟩

def nativeType? : Native → Option TypeId
  | .arith _ _ type | .negate _ type | .complement _ type | .arrayData type
  | .arrayIndex type _ _ | .follow type | .assignThrough
    type | .shiftAddress type _ _
  | .addressIndex type _ => some type
  | _ => none

instance : Handles Native :=
  ⟨fun n w => Known n (nativeType? w), fun h hw => mono h hw⟩

instance : Handles Body where
  Known n
    | .native what => Known n what
    | .interpreted .. => True
  mono {_ _ a} h := by
    cases a with
    | native what => exact mono h
    | interpreted tree node scope => exact id

instance : Handles Function :=
  ⟨fun n f => Known n f.params ∧ Known n f.ret ∧ Known n f.owner ∧
    Known n f.body,
    fun h ⟨hparams, hret, howner, hbody⟩ =>
      ⟨mono h hparams, mono h hret, mono h howner, mono h hbody⟩⟩

instance : Handles Scope :=
  ⟨fun n s => Known n s.types ∧ Known n s.templateParams, fun h hs =>
    ⟨mono h hs.1, mono h hs.2⟩⟩

instance : Handles TemplateParam where
  Known n p :=
    match p.kind with
    | .value type => Known n type
    | .type => True
  mono {_ _ p} h := by
    cases p.kind with
    | value type => exact mono h
    | type => exact id

instance : Handles TemplateItem where
  Known n
    | .function owner => Known n owner
    | .record _ => True
  mono {_ _ a} h := by
    cases a with
    | function owner => exact mono h
    | record kind => exact id

instance : Handles TemplateDef :=
  ⟨fun n d => Known n d.params ∧ Known n d.item, fun h hd =>
    ⟨mono h hd.1, mono h hd.2⟩⟩

instance : Handles CallRecord :=
  ⟨fun n r => Known n r.owner ∧ Known n r.returnSlot, fun h hr =>
    ⟨mono h hr.1, mono h hr.2⟩⟩

instance : Handles Frame :=
  ⟨fun n f => Known n f.locals ∧ Known n f.call ∧ Known n f.destructibles,
    fun h ⟨hlocals, hcall, hdoomed⟩ =>
      ⟨mono h hlocals, mono h hcall, mono h hdoomed⟩⟩

instance : Handles Member :=
  ⟨fun n m => Known n m.params ∧ Known n m.ret ∧ Known n m.native,
    fun h ⟨hparams, hret, hnative⟩ =>
      ⟨mono h hparams, mono h hret, mono h hnative⟩⟩

instance : Handles Callee where
  Known n
    | .constructor type => Known n type
    | .function _ => True
  mono {_ _ a} h := by
    cases a with
    | constructor type => exact mono h
    | function target => exact id

/-! ## Results and tables -/

instance {ε : Type} [Handles α] : Handles (Except ε α) :=
  ⟨fun n x => ∀ a, x = .ok a → Known n a, fun h hx a ha => mono h (hx a ha)⟩

instance : Handles TypeTable :=
  ⟨fun n t => ∀ id, Known n (t.get id), fun h ht id => mono h (ht id)⟩

instance : Handles ScopeTable :=
  ⟨fun n t => ∀ id, Known n (t.get id), fun h ht id => mono h (ht id)⟩

instance : Handles FunctionTable :=
  ⟨fun n t => ∀ id, Known n (t.get id), fun h ht id => mono h (ht id)⟩

instance : Handles TemplateTable :=
  ⟨fun n t => ∀ id, Known n (t.get id), fun h ht id => mono h (ht id)⟩

instance : Handles Arena :=
  ⟨fun n a => a.capacity < Word.modulus ∧ a.WellFormed ∧ Known n a.frames,
    fun h ⟨hcapacity, hformed, hframes⟩ => ⟨hcapacity, hformed, mono h hframes⟩⟩

@[simp] theorem known_ok {ε : Type} [Handles α] {a : α} :
    Known n (.ok a : Except ε α) ↔ Known n a := by
  constructor
  · intro h
    exact h a rfl
  · intro h b hb
    cases hb
    exact h

@[simp] theorem known_pure {ε : Type} [Handles α] {a : α} :
    Known n (pure a : Except ε α) ↔ Known n a :=
  known_ok

@[simp] theorem known_error {ε : Type} [Handles α] {e : ε} :
    Known n (.error e : Except ε α) := by
  intro a ha
  cases ha

theorem known_exceptMap {ε : Type} [Handles β] {x : Except ε α} {f : α → β}
    (h : ∀ a, x = .ok a → Known n (f a)) : Known n (x.map f) := by
  cases x with
  | ok a => exact known_ok.2 (h a rfl)
  | error e => exact known_error

theorem known_exceptBind {ε : Type} [Handles β] {x : Except ε α}
    {f : α → Except ε β} (h : ∀ a, x = .ok a → Known n (f a)) :
    Known n (x >>= f) := by
  cases x with
  | ok a => exact h a rfl
  | error e => exact known_error

theorem known_getD_push [Handles α] {xs : Array α} {d a : α}
    (h : ∀ i, Known n (xs.getD i d)) (ha : Known n a) (i : Nat) :
    Known n ((xs.push a).getD i d) := by
  have hi := h i
  simp only [Array.getD_eq_getD_getElem?, Array.getElem?_push] at hi ⊢
  split
  · exact ha
  · exact hi

theorem known_getD_modify [Handles α] {xs : Array α} {d : α} {f : α → α}
    {k : Nat} (h : ∀ i, Known n (xs.getD i d)) (hf : Known n (f (xs.getD k d)))
    (i : Nat) : Known n ((xs.modify k f).getD i d) := by
  have hi := h i
  simp only [Array.getD_eq_getD_getElem?, Array.getElem?_modify] at hi hf ⊢
  by_cases hk : k = i
  · subst hk
    simp only [if_pos]
    cases hx : xs[k]? with
    | none =>
        rw [hx] at hi
        exact hi
    | some x =>
        rw [hx] at hf
        exact hf
  · rw [if_neg hk]
    exact hi

end Handles

end ArenaScript
