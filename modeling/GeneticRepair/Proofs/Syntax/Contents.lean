import GeneticRepair.Proofs.Syntax.Rearranging
import GeneticRepair.Syntax.Content

/-!
# `Proofs/Syntax/Contents.lean` — what a program says

A program without the identities of its nodes and the positions of its tokens is its content. The
comparison of two nodes stops where it meets one node on both sides, so it compares contents only
where nodes are known by identity (`sameContent_iff`), as they are in a forest. What programs with
one content have in common they have place by place (`descend_of_content_eq`), and they still have
one content after edits of one content at one place (`content_eq_of_agree`).
-/

set_option autoImplicit false

namespace GeneticRepair

/-- The kinds and tokens of a program. -/
inductive Content where
  | token (text : String)
  | block (kind : NodeKind) (parts : List Content)

namespace Node

mutual

def content : Node → Content
  | .leaf _ text _ => .token text
  | .inner _ kind _ children => .block kind (contentAll children)

def contentAll : List Node → List Content
  | [] => []
  | c :: cs => c.content :: contentAll cs

end

theorem contentAll_eq (l : List Node) : contentAll l = l.map content := by
  induction l with
  | nil => rfl
  | cons c l ih => rw [contentAll, ih, List.map_cons]

variable {a b : Node}

theorem content_eq_of_inner (h : a.isLeaf = false) :
    a.content = .block a.kind (a.children.map content) := by
  cases a with
  | leaf => cases h
  | inner id kind span children =>
    rw [content, contentAll_eq]
    rfl

theorem kind_eq_of_content_eq (h : a.content = b.content) : a.kind = b.kind := by
  cases a with
  | leaf =>
    cases b with
    | leaf => rfl
    | inner => cases h
  | inner =>
    cases b with
    | leaf => cases h
    | inner => exact (Content.block.inj h).1

theorem children_of_content_eq (h : a.content = b.content) :
    a.children.map content = b.children.map content := by
  cases a with
  | leaf =>
    cases b with
    | leaf => rfl
    | inner => cases h
  | inner =>
    cases b with
    | leaf => cases h
    | inner =>
      have hparts := (Content.block.inj h).2
      rwa [contentAll_eq, contentAll_eq] at hparts

/-- At a place of one program stands what has the content of the node there in the other. -/
theorem descend_of_content_eq (h : a.content = b.content) (path : ChildPath) :
    (a.descend path).map content = (b.descend path).map content := by
  induction path generalizing a b with
  | nil => exact congrArg some h
  | cons i path ih =>
    have hchild : (a.children[i]?).map content = (b.children[i]?).map content := by
      rw [← List.getElem?_map, children_of_content_eq h, List.getElem?_map]
    rw [descend, descend]
    cases hc : a.children[i]? with
    | none =>
      rw [hc, Option.map_none, eq_comm, Option.map_eq_none_iff] at hchild
      rw [hchild]
    | some c =>
      rw [hc, Option.map_some, eq_comm, Option.map_eq_some_iff] at hchild
      obtain ⟨d, hd, heq⟩ := hchild
      rw [hd]
      exact ih heq.symm

/-! ## Comparing -/

theorem sameContentAll_of_map_eq {as bs : List Node}
    (h : ∀ a ∈ as, ∀ b, a.content = b.content → a.sameContent b = true)
    (heq : as.map content = bs.map content) : sameContentAll as bs = true := by
  induction as generalizing bs with
  | nil =>
    obtain rfl := List.map_eq_nil_iff.mp heq.symm
    rfl
  | cons a as ih =>
    obtain ⟨b, bs, rfl, hb, hbs⟩ := List.map_eq_cons_iff.mp heq.symm
    obtain ⟨ha, has⟩ := List.forall_mem_cons.mp h
    rw [sameContentAll, ha b hb.symm, ih has hbs.symm, Bool.and_self]

/-- Nodes with one content are found to be alike. -/
theorem sameContent_of_content_eq (h : a.content = b.content) : a.sameContent b = true := by
  induction a generalizing b with
  | leaf id text position =>
    cases b with
    | leaf id' text' position' =>
      obtain rfl := Content.token.inj h
      simp [sameContent]
    | inner => cases h
  | inner id kind span children ih =>
    cases b with
    | leaf => cases h
    | inner id' kind' span' children' =>
      obtain rfl := (Content.block.inj h).1
      have hchildren : sameContentAll children children' = true :=
        sameContentAll_of_map_eq (fun c hc _ => ih c hc) (children_of_content_eq h)
      rw [sameContent, hchildren, BEq.rfl, Bool.and_self, Bool.or_true]

theorem map_eq_of_sameContentAll {as bs : List Node}
    (h : ∀ a ∈ as, ∀ b ∈ bs, a.sameContent b = true → a.content = b.content)
    (hsame : sameContentAll as bs = true) : as.map content = bs.map content := by
  induction as generalizing bs with
  | nil =>
    cases bs with
    | nil => rfl
    | cons => cases hsame
  | cons a as ih =>
    cases bs with
    | nil => cases hsame
    | cons b bs =>
      rw [sameContentAll, Bool.and_eq_true] at hsame
      have hhead := h a List.mem_cons_self b List.mem_cons_self hsame.1
      have htail := ih (fun a ha b hb => h a (.tail _ ha) b (.tail _ hb)) hsame.2
      rw [List.map_cons, List.map_cons, hhead, htail]

/-- Nodes that are found to be alike have one content, if an identity stands for one node. -/
theorem content_eq_of_sameContent
    (hid : ∀ m ∈ a.preorder, ∀ m' ∈ b.preorder, m.id = m'.id → m = m')
    (h : a.sameContent b = true) : a.content = b.content := by
  have hroot : a.id = b.id → a.content = b.content := fun heq =>
    congrArg content (hid a (self_mem_preorder a) b (self_mem_preorder b) heq)
  induction a generalizing b with
  | leaf id text position =>
    cases b with
    | leaf id' text' position' =>
      rw [sameContent, Bool.or_eq_true, beq_iff_eq, beq_iff_eq] at h
      exact h.elim hroot fun htext => congrArg Content.token htext
    | inner id' kind' span' children' =>
      rw [sameContent, beq_iff_eq] at h
      exact hroot h
  | inner id kind span children ih =>
    cases b with
    | leaf id' text' position' =>
      rw [sameContent, beq_iff_eq] at h
      exact hroot h
    | inner id' kind' span' children' =>
      rw [sameContent, Bool.or_eq_true, Bool.and_eq_true, beq_iff_eq, beq_iff_eq] at h
      obtain h | ⟨rfl, h⟩ := h
      · exact hroot h
      · have hchildren := map_eq_of_sameContentAll (fun c hc d hd hcd => by
          have hbelow : ∀ m ∈ c.preorder, ∀ m' ∈ d.preorder, m.id = m'.id → m = m' :=
            fun m hm m' hm' => hid m (mem_preorder_of_mem_child hc hm) m'
              (mem_preorder_of_mem_child hd hm')
          exact ih c hc hbelow hcd fun heq => congrArg content
            (hbelow c (self_mem_preorder c) d (self_mem_preorder d) heq)) h
        rw [content, content, contentAll_eq, contentAll_eq, hchildren]

theorem sameContent_iff (hid : ∀ m ∈ a.preorder, ∀ m' ∈ b.preorder, m.id = m'.id → m = m') :
    a.sameContent b = true ↔ a.content = b.content :=
  ⟨content_eq_of_sameContent hid, sameContent_of_content_eq⟩

theorem sameContentAll_comm {as bs : List Node}
    (h : ∀ a ∈ as, ∀ b, a.sameContent b = b.sameContent a) :
    sameContentAll as bs = sameContentAll bs as := by
  induction as generalizing bs with
  | nil => cases bs <;> rfl
  | cons a as ih =>
    cases bs with
    | nil => rfl
    | cons b bs =>
      obtain ⟨ha, has⟩ := List.forall_mem_cons.mp h
      rw [sameContentAll, sameContentAll, ha b, ih has]

/-- It does not matter which of two nodes is compared with the other. -/
theorem sameContent_comm (a b : Node) : a.sameContent b = b.sameContent a := by
  induction a generalizing b with
  | leaf id text position =>
    cases b with
    | leaf => rw [sameContent, sameContent, Bool.beq_comm, Bool.beq_comm (a := text)]
    | inner => rw [sameContent, sameContent, Bool.beq_comm]
  | inner id kind span children ih =>
    cases b with
    | leaf => rw [sameContent, sameContent, Bool.beq_comm]
    | inner =>
      rw [sameContent, sameContent, Bool.beq_comm, Bool.beq_comm (a := kind),
        sameContentAll_comm ih]

/-! ## Editing -/

/-- Programs that agree apart from a place, and in kind on the way to it. -/
structure AgreeAround (path : ChildPath) (t t' : Node) : Prop where
  off : ∀ q, Apart path q → t'.descend q = t.descend q
  kind_eq : ∀ q, q <+: path → (t'.descend q).map kind = (t.descend q).map kind

variable {t t' u u' : Node} {path : ChildPath}

theorem AgreeAround.child {i : Nat} {c' : Node} (h : AgreeAround (i :: path) t t')
    (hc' : t'.children[i]? = some c') :
    ∃ c, t.children[i]? = some c ∧ t'.children = t.children.set i c' ∧ AgreeAround path c c' := by
  have hkind := h.kind_eq [i] (List.cons_prefix_cons.mpr ⟨rfl, List.nil_prefix⟩)
  rw [descend_cons hc'] at hkind
  obtain ⟨m, hm, -⟩ := Option.map_eq_some_iff.mp hkind.symm
  obtain ⟨c, hc, -⟩ := Option.bind_eq_some_iff.mp hm
  refine ⟨c, hc, children_of_agree hc' h.off (List.getElem?_eq_some_iff.mp hc).1,
    agree_below hc hc' h.off, fun q hq => ?_⟩
  have hbelow := h.kind_eq (i :: q) (List.cons_prefix_cons.mpr ⟨rfl, hq⟩)
  rwa [descend_cons hc, descend_cons hc'] at hbelow

/-- Programs with one content keep one if the same place gets one content in both of them. -/
theorem content_eq_of_agree {new new' : Node} (h : t.content = u.content)
    (ht : AgreeAround path t t') (hu : AgreeAround path u u') (hnew : t'.descend path = some new)
    (hnew' : u'.descend path = some new') (heq : new.content = new'.content) :
    t'.content = u'.content := by
  induction path generalizing t t' u u' with
  | nil =>
    obtain rfl := Option.some.inj hnew
    obtain rfl := Option.some.inj hnew'
    exact heq
  | cons i path ih =>
    obtain ⟨c', hc', hnew⟩ := Option.bind_eq_some_iff.mp hnew
    obtain ⟨d', hd', hnew'⟩ := Option.bind_eq_some_iff.mp hnew'
    obtain ⟨c, hc, hset, hbelow⟩ := ht.child hc'
    obtain ⟨d, hd, hset', hbelow'⟩ := hu.child hd'
    have hroot : t'.kind = u'.kind := by
      have hkind := ht.kind_eq [] List.nil_prefix
      have hkind' := hu.kind_eq [] List.nil_prefix
      exact (Option.some.inj hkind).trans
        ((kind_eq_of_content_eq h).trans (Option.some.inj hkind').symm)
    have hchildren := children_of_content_eq h
    have hcd : c.content = d.content := by
      have hi := congrArg (fun l : List Content => l[i]?) hchildren
      simpa only [List.getElem?_map, hc, hd, Option.map_some, Option.some.injEq] using hi
    rw [content_eq_of_inner (isLeaf_of_getElem? hc'), content_eq_of_inner (isLeaf_of_getElem? hd'),
      hroot, hset, hset', List.map_set, List.map_set, hchildren, ih hcd hbelow hbelow' hnew hnew']

end Node

section

variable {α : Type} [Scalar α] {s s' : Store α} {t t' : Node} {p : ChildPath}

theorem EditedAt.agreeAround {script : List Edit} {answers : List (Except EditError (Option Node))}
    (he : EditedAt p script s s' t t' answers) : Node.AgreeAround p t t' := by
  refine ⟨fun q hq => he.off q hq.2 hq.1, fun q hq => ?_⟩
  obtain ⟨was, now, hwas, hnow, -, hkind, -⟩ := he.along q hq
  rw [hwas, hnow, Option.map_some, Option.map_some, hkind]

/-- Programs with one content keep one if the same place gets children of one content in both. -/
theorem EditedAt.content_eq {s₁ s₁' : Store α} {u u' : Node} {kids kids' : List Node}
    (he : EditedAt p [.replace kids] s s' t t' [.ok none])
    (he' : EditedAt p [.replace kids'] s₁ s₁' u u' [.ok none]) (h : t.content = u.content)
    (hkids : kids.map Node.content = kids'.map Node.content) : t'.content = u'.content := by
  obtain ⟨was, now, hwas, hnow, -, hinner, hchildren⟩ := he.replaced
  obtain ⟨was', now', hwas', hnow', -, hinner', hchildren'⟩ := he'.replaced
  refine Node.content_eq_of_agree h he.agreeAround he'.agreeAround hnow hnow' ?_
  have hkind : now.kind = now'.kind := by
    have hnowKind := he.agreeAround.kind_eq p (List.prefix_refl p)
    have hnowKind' := he'.agreeAround.kind_eq p (List.prefix_refl p)
    have hwasKind := Node.descend_of_content_eq h p
    rw [hwas, hwas', Option.map_some, Option.map_some, Option.some.injEq] at hwasKind
    rw [hwas, hnow, Option.map_some, Option.map_some, Option.some.injEq] at hnowKind
    rw [hwas', hnow', Option.map_some, Option.map_some, Option.some.injEq] at hnowKind'
    rw [hnowKind, hnowKind', Node.kind_eq_of_content_eq hwasKind]
  rw [Node.content_eq_of_inner hinner, Node.content_eq_of_inner hinner', hkind, hchildren,
    hchildren', hkids]

end

end GeneticRepair
