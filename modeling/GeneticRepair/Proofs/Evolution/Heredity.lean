import GeneticRepair.Evolution.Breeding

/-!
# `Proofs/Evolution/Heredity.lean` — what breeding does to what is known

Selection, crossing, refilling and variation move variants about before they are evaluated. They
copy variants and give them new programs, and do nothing else to them: what copies and new versions
inherit (`Hereditary`), all variants have that come out. Nor do they touch the evaluator (`Steady`).

All they can do to a fitness is therefore to keep it together with its program and its failing
tests, or to drop it: no variant comes out of them with a fitness that it did not come in with
(`Inherits`).
-/

set_option autoImplicit false

namespace GeneticRepair

/-- Copies and new versions have the property if the variant they come from has it. -/
structure Variant.Hereditary {α : Type} (P : Variant α → Prop) : Prop where
  copyAs : ∀ {v : Variant α} (id : Nat), P v → P (v.copyAs id)
  become : ∀ {v : Variant α} (root : Node) (description : String), P v →
    P (v.become root description)

/-- A variant has no fitness, or what is known about it is known about one of the given ones. -/
def Variant.Inherits {α : Type} (v : Variant α) (parents : List (Variant α)) : Prop :=
  v.fitness = none ∨
    ∃ w ∈ parents, v.root = w.root ∧ v.fitness = w.fitness ∧ v.failing = w.failing

theorem Variant.Hereditary.inherits {α : Type} (parents : List (Variant α)) :
    Variant.Hereditary (·.Inherits parents) := ⟨fun _ h => h, fun _ _ _ => .inl rfl⟩

namespace Variant.Inherits

variable {α : Type} {v : Variant α} {parents : List (Variant α)}

theorem of_mem (h : v ∈ parents) : v.Inherits parents := .inr ⟨v, h, rfl, rfl, rfl⟩

theorem mono {more : List (Variant α)} (h : v.Inherits parents)
    (hsub : ∀ w ∈ parents, w ∈ more) : v.Inherits more := by
  obtain h | ⟨w, hw, heq⟩ := h
  · exact .inl h
  · exact .inr ⟨w, hsub w hw, heq⟩

end Variant.Inherits

namespace Search

variable {α ω β γ : Type}

/-! ## Computations that leave the evaluator alone -/

/-- The evaluator is the same before and after, and the result is as it should be. -/
def Steady (P : β → Prop) (x : StateM (Search α ω) β) : Prop :=
  ∀ s, (x s).2.bench.evaluator = s.bench.evaluator ∧ P (x s).1

namespace Steady

variable {P : β → Prop} {Q : γ → Prop}

theorem pure {a : β} (h : P a) : Steady P (pure a : StateM (Search α ω) β) := fun _ => ⟨rfl, h⟩

theorem bind {x : StateM (Search α ω) β} {f : β → StateM (Search α ω) γ} (hx : Steady P x)
    (hf : ∀ a, P a → Steady Q (f a)) : Steady Q (x >>= f) := by
  intro s
  obtain ⟨he, hp⟩ := hx s
  obtain ⟨he', hq⟩ := hf (x s).1 hp (x s).2
  exact ⟨he'.trans he, hq⟩

/-- The result of the first part does not matter. -/
theorem after {x : StateM (Search α ω) β} {f : β → StateM (Search α ω) γ}
    (hx : Steady (fun _ => True) x) (hf : ∀ a, Steady Q (f a)) : Steady Q (x >>= f) :=
  hx.bind fun a _ => hf a

theorem record (f : Tally α → Tally α) :
    Steady (fun _ => True) (record f : StateM (Search α ω) Unit) :=
  fun _ => ⟨rfl, trivial⟩

theorem nextNumber : Steady (fun _ => True) (nextNumber : StateM (Search α ω) Nat) :=
  fun _ => ⟨rfl, trivial⟩

theorem withWords (f : WordStream → β × WordStream) :
    Steady (fun _ => True) (withWords f : StateM (Search α ω) β) := fun _ => ⟨rfl, trivial⟩

theorem withStore (f : WordStream → StoreM α (β × WordStream)) :
    Steady (fun _ => True) (withStore f : StateM (Search α ω) β) := fun _ => ⟨rfl, trivial⟩

theorem onBench {f : Bench α ω → β × Bench α ω} (hf : ∀ b, (f b).2.evaluator = b.evaluator) :
    Steady (fun _ => True) (onBench f) := fun s => ⟨hf s.bench, trivial⟩

end Steady

/-! ## What is handed down -/

namespace Steady

variable {P : Variant α → Prop} (hP : Variant.Hereditary P)

include hP

theorem renumber {vs : List (Variant α)} (h : ∀ v ∈ vs, P v) :
    Steady (fun copies => ∀ v ∈ copies, P v)
      (renumber vs : StateM (Search α ω) (List (Variant α))) := by
  induction vs with
  | nil => exact .pure nofun
  | cons v vs ih =>
    obtain ⟨hv, hvs⟩ := List.forall_mem_cons.mp h
    exact .after .nextNumber fun id => .bind (ih hvs) fun copies hcopies =>
      .pure (List.forall_mem_cons.mpr ⟨hP.copyAs id hv, hcopies⟩)

theorem refill (settings : Settings α) {original : Variant α} {next : List (Variant α)}
    (horiginal : P original) (hnext : ∀ v ∈ next, P v) :
    Steady (fun full => ∀ v ∈ full, P v)
      (refill settings original next : StateM (Search α ω) (List (Variant α))) := by
  refine .bind (renumber hP fun v hv => ?_) fun copies hcopies =>
    .pure (List.forall_mem_append.mpr ⟨hnext, hcopies⟩)
  rwa [List.eq_of_mem_replicate hv]

theorem consult (oracle : Oracle α ω) {v : Variant α} (hstale : ∀ w, P w → P w.markStale)
    (hv : P v) : Steady P (consult oracle v) := by
  refine .after (.record _) fun _ => .after (.onBench fun _ => rfl) fun answer => ?_
  split
  · exact .pure (hstale _ (hP.become _ _ hv))
  · exact .after (.record _) fun _ => .pure hv

variable [Scalar α]

/-- Parents are copies of members of the population. -/
theorem selectParents (settings : Settings α) {population : List (Variant α)}
    (h : ∀ v ∈ population, P v) :
    Steady (fun parents => ∀ v ∈ parents, P v)
      (selectParents settings population : StateM (Search α ω) (List (Variant α))) := by
  unfold Search.selectParents
  simp only []
  split
  · exact .pure nofun
  · exact .after (.withWords _) fun picks => renumber hP fun v hv => h v (mem_of_drawn hv).1

theorem crossPair {a b : Variant α} (ha : P a) (hb : P b) :
    Steady (fun family => ∀ v ∈ family, P v)
      (crossPair a b : StateM (Search α ω) (List (Variant α))) := by
  refine .after (.withStore _) fun crossing => ?_
  cases crossing with
  | offspring first second blocks =>
    refine .after (.record _) fun _ => .after .nextNumber fun firstId => .after .nextNumber
      fun secondId => .pure ?_
    simp only [List.forall_mem_cons]
    exact ⟨ha, hb, hP.become first _ (hP.copyAs firstId ha),
      hP.become second _ (hP.copyAs secondId hb), nofun⟩
  | alike =>
    refine .after (.record _) fun _ => .pure ?_
    simp only [List.forall_mem_cons]
    exact ⟨ha, hb, nofun⟩

theorem crossPairs : {parents : List (Variant α)} → (∀ v ∈ parents, P v) →
    Steady (fun bred => ∀ v ∈ bred, P v)
      (crossPairs parents : StateM (Search α ω) (List (Variant α)))
  | [], h => .pure h
  | [_], h => .pure h
  | _ :: _ :: _, h =>
    .bind (crossPair hP (h _ List.mem_cons_self) (h _ (List.mem_cons_of_mem _ List.mem_cons_self)))
      fun _ hfamily =>
        .bind (crossPairs fun v hv => h v (List.mem_cons_of_mem _ (List.mem_cons_of_mem _ hv)))
          fun _ hothers => .pure (List.forall_mem_append.mpr ⟨hfamily, hothers⟩)

theorem mutateByOperator (settings : Settings α) {v : Variant α} (hv : P v) :
    Steady P (mutateByOperator settings v : StateM (Search α ω) (Variant α)) := by
  refine .after (.withStore _) fun mutation => ?_
  cases mutation with
  | changed root operator description =>
    exact .after (.record _) fun _ => .pure (hP.become root description hv)
  | unchanged => exact .after (.record _) fun _ => .pure hv
  | refused _ _ => exact .after (.record _) fun _ => .pure hv

variable {c : Collaborators α ω} (hc : c.oracle = none ∨ ∀ v, P v → P v.markStale)

include hc

theorem vary (settings : Settings α) {v : Variant α} (hv : P v) :
    Steady P (vary settings c v) := by
  unfold Search.vary
  cases ho : c.oracle with
  | none => exact mutateByOperator hP settings hv
  | some oracle =>
    have hstale := hc.resolve_left (ho ▸ nofun)
    refine .after (.withWords _) fun asked => ?_
    split
    · exact consult hP oracle hstale hv
    · exact mutateByOperator hP settings hv

theorem varyAll (settings : Settings α) {vs : List (Variant α)} (h : ∀ v ∈ vs, P v) :
    Steady (fun varied => ∀ v ∈ varied, P v) (varyAll settings c vs) := by
  induction vs with
  | nil => exact .pure nofun
  | cons v vs ih =>
    obtain ⟨hv, hvs⟩ := List.forall_mem_cons.mp h
    exact .bind (vary hP hc settings hv) fun w hw => .bind (ih hvs) fun varied hvaried =>
      .pure (List.forall_mem_cons.mpr ⟨hw, hvaried⟩)

/-- What a population and the program under repair hand down, the next generation has. -/
theorem nextGeneration (settings : Settings α) {original : Variant α}
    {population : List (Variant α)} (horiginal : P original) (h : ∀ v ∈ population, P v) :
    Steady (fun generation => ∀ v ∈ generation, P v)
      (nextGeneration settings c original population) := by
  have hbred : Steady (fun bred => ∀ v ∈ bred, P v)
      (breed settings population : StateM (Search α ω) (List (Variant α))) :=
    .bind (selectParents hP settings h) fun _ hparents => crossPairs hP hparents
  exact hbred.bind fun _ hbred => .bind (refill hP settings horiginal hbred) fun _ hfull =>
    varyAll hP hc settings hfull

end Steady

/-! ## What is known is inherited -/

section

variable [Scalar α]

theorem steady_selectParents (settings : Settings α) (population : List (Variant α)) :
    Steady (fun parents => ∀ v ∈ parents, v.Inherits population)
      (selectParents settings population : StateM (Search α ω) (List (Variant α))) :=
  .selectParents (.inherits population) settings fun _ => .of_mem

omit [Scalar α] in
theorem steady_refill (settings : Settings α) (original : Variant α) (next : List (Variant α)) :
    Steady (fun full => ∀ v ∈ full, v.Inherits (original :: next))
      (refill settings original next : StateM (Search α ω) (List (Variant α))) :=
  .refill (.inherits (original :: next)) settings (.of_mem List.mem_cons_self)
    fun _ hv => .of_mem (List.mem_cons_of_mem _ hv)

theorem steady_crossPair (a b : Variant α) :
    Steady (fun family => ∀ v ∈ family, v.Inherits [a, b])
      (crossPair a b : StateM (Search α ω) (List (Variant α))) :=
  .crossPair (.inherits [a, b]) (.of_mem List.mem_cons_self)
    (.of_mem (List.mem_cons_of_mem _ List.mem_cons_self))

theorem steady_vary (settings : Settings α) (c : Collaborators α ω) (v : Variant α) :
    Steady (fun w => w.Inherits [v]) (vary settings c v) :=
  .vary (.inherits [v]) (.inr fun _ hv => hv) settings (.of_mem List.mem_cons_self)

end

end Search

end GeneticRepair
