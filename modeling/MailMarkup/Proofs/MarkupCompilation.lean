import MailMarkup.Compilation.Text
import MailMarkup.Proofs.OutlineLegality

/-!
# Documents read from markup compile

The reader builds a body out of blocks that hold nothing but their content, which is the shape that
a compilation asks for. So what is wrong with a text is found when it is read, and a text that can
be read compiles under all settings.
-/
namespace MailMarkup

/-- A body as the reader builds it. -/
structure Node.IsBlockBody (n : Node) : Prop where
  tag : n.tag = "mj-body"
  content : n.content = ""
  blocks : ∀ child ∈ n.children,
    (child.tag = "mj-badge" ∨ child.tag = "mj-raw") ∧ child.children = []

theorem Node.IsBlockBody.isLegal {n : Node} (body : n.IsBlockBody) : n.outline.IsLegal := by
  refine .inr ⟨by rw [Node.tag_outline, body.tag], ?_⟩
  rw [Node.children_outline, List.forall_mem_map]
  intro child member
  obtain ⟨tag, childless⟩ := body.blocks child member
  refine ⟨?_, ?_⟩
  · rwa [Node.tag_outline]
  · rw [Node.children_outline, childless, List.map_nil]

private theorem Node.ofBlock_isBlock {e : Element} {n : Node} (read : Node.ofBlock e = .ok n) :
    (n.tag = "mj-badge" ∨ n.tag = "mj-raw") ∧ n.children = [] := by
  unfold Node.ofBlock at read
  split at read
  · cases read
  · next c known =>
    split at read
    · next accepted =>
      cases read
      have tag := Component.ofTag?_eq_some_iff.mp known
      have block := ((Component.acceptsChild_iff _ _).mp accepted).2
      cases c with
      | body => exact absurd rfl block
      | badge => exact ⟨.inl tag, rfl⟩
      | raw => exact ⟨.inr tag, rfl⟩
    · cases read

private theorem Node.ofBody_isBlockBody {e : Element} {n : Node} (tag : e.tag = "mj-body")
    (read : Node.ofBody e = .ok n) : n.IsBlockBody := by
  obtain ⟨blocks, children, rfl⟩ := FirstFailure.map_eq_ok_iff.mp read
  exact ⟨tag, rfl, FirstFailure.forall_of_mapM_ok (fun _ _ _ => Node.ofBlock_isBlock) children⟩

def Element.isBody (e : Element) : Bool := e.tag == "mj-body"

namespace Document

/-- The body met so far, if any, is made of blocks. -/
def Draft.IsSound (d : Draft) : Prop := ∀ n, d.body = some n → n.IsBlockBody

private theorem Draft.addElement_isSound {d next : Draft} {e : Element} (sound : d.IsSound)
    (added : d.addElement e = .ok next) : next.IsSound := by
  unfold Draft.addElement at added
  split at added
  · obtain ⟨head, -, rfl⟩ := FirstFailure.map_eq_ok_iff.mp added
    exact sound
  · split at added
    · next tag =>
      split at added
      · cases added
      · obtain ⟨n, body, rfl⟩ := FirstFailure.map_eq_ok_iff.mp added
        rintro _ ⟨⟩
        exact Node.ofBody_isBlockBody tag body
    · cases added

/-- The elements of a document are read one after another, until there is a head and a body. -/
theorem ofElements_eq_ok_iff {top : List Element} {d : Document} :
    ofElements top = .ok d ↔
      (parts top).foldlM Draft.addElement {} = .ok ⟨d.head, some d.body⟩ := by
  cases top with
  | nil => exact iff_of_false nofun fun run => nomatch congrArg Draft.body (Except.ok.inj run)
  | cons e rest =>
    refine FirstFailure.bind_eq_ok_iff.trans ⟨?_, fun run => ⟨_, run, rfl⟩⟩
    rintro ⟨draft, run, finish⟩
    unfold Draft.finish at finish
    split at finish
    · next body found =>
      cases finish
      rw [run, ← found]
    · cases finish

theorem ofElements_isBlockBody {top : List Element} {d : Document}
    (read : ofElements top = .ok d) : d.body.IsBlockBody := by
  have sound : Draft.IsSound ⟨d.head, some d.body⟩ :=
    FirstFailure.foldlM_preserves (fun _ _ _ => Draft.addElement_isSound) (by rintro n ⟨⟩)
      (ofElements_eq_ok_iff.mp read)
  exact sound d.body rfl

/-- The bodies among the elements are read in order, unless there is one already. -/
theorem Draft.bodies_of_foldlM {d last : Draft} {es : List Element}
    (run : es.foldlM Draft.addElement d = .ok last) :
    ∃ bodies, (es.filter Element.isBody).mapM Node.ofBody = .ok bodies ∧
      last.body.toList = d.body.toList ++ bodies := by
  induction es generalizing d with
  | nil =>
    cases run
    exact ⟨[], rfl, (List.append_nil _).symm⟩
  | cons e es ih =>
    rw [List.foldlM_cons] at run
    obtain ⟨next, added, rest⟩ := FirstFailure.bind_eq_ok_iff.mp run
    obtain ⟨bodies, read, same⟩ := ih rest
    unfold Draft.addElement at added
    split at added
    · next tag =>
      obtain ⟨head, -, rfl⟩ := FirstFailure.map_eq_ok_iff.mp added
      have other : ¬ e.isBody = true := by simp [Element.isBody, tag]
      rw [List.filter_cons_of_neg other]
      exact ⟨bodies, read, same⟩
    · split at added
      · next tag =>
        split at added
        · cases added
        · next bodiless =>
          obtain ⟨n, body, rfl⟩ := FirstFailure.map_eq_ok_iff.mp added
          have here : e.isBody = true := beq_iff_eq.mpr tag
          have first : d.body.toList = [] := by simpa using bodiless
          refine ⟨n :: bodies, ?_, ?_⟩
          · rw [List.filter_cons_of_pos here, FirstFailure.mapM_cons_of_ok body, read]
            rfl
          · rw [same, first]
            rfl
      · cases added

/-- The body of a document is read from the one body among its elements. -/
theorem exists_body_of_ofElements {top : List Element} {d : Document}
    (read : ofElements top = .ok d) :
    ∃ e, (parts top).filter Element.isBody = [e] ∧ Node.ofBody e = .ok d.body := by
  obtain ⟨bodies, bodiesRead, same⟩ := Draft.bodies_of_foldlM (ofElements_eq_ok_iff.mp read)
  have single : bodies = [d.body] := same.symm
  rw [single, FirstFailure.mapM_eq_ok_iff, List.forall₂_cons_right_iff] at bodiesRead
  obtain ⟨e, rest, here, others, split⟩ := bodiesRead
  rw [List.forall₂_nil_right_iff] at others
  exact ⟨e, others ▸ split, here⟩

theorem ofMarkup_isBlockBody {s : String} {d : Document} (read : ofMarkup s = .ok d) :
    d.body.IsBlockBody := by
  unfold ofMarkup at read
  split at read
  · cases read
  · exact ofElements_isBlockBody read

end Document

/-- Reading finds all that can be wrong with a text: what it accepts compiles under all settings,
and what it refuses is refused with the same problem. -/
theorem compileText_follows_ofMarkup (s : String) (config : Config) :
    (∀ d, Document.ofMarkup s = .ok d →
      d.body.IsBlockBody ∧ ∃ out, compile d config = .ok out) ∧
    ∀ p, compileText s config = .error p ↔ Document.ofMarkup s = .error p := by
  have compiles : ∀ d, Document.ofMarkup s = .ok d → ∃ out, compile d config = .ok out :=
    fun d read => (compileWith_succeeds_iff Template.standard_isTotal d config).mpr
      (Document.ofMarkup_isBlockBody read).isLegal
  refine ⟨fun d read => ⟨Document.ofMarkup_isBlockBody read, compiles d read⟩, fun p => ?_⟩
  exact FirstFailure.bind_eq_error_iff compiles

theorem compileText_follows_ofMarkup_newsletter :
    let s := "<mj-body><mj-raw><hr/></mj-raw><!--1--><mj-badge href='#'>New</mj-badge></mj-body>"
    ∃ d, Document.ofMarkup s = .ok d ∧ d.body.IsBlockBody ∧ ∃ out, compile d {} = .ok out := by
  intro s
  have accepted : (Document.ofMarkup s).toOption.isSome = true := by decide +kernel
  cases read : Document.ofMarkup s with
  | error p =>
    rw [read] at accepted
    cases accepted
  | ok d => exact ⟨d, rfl, (compileText_follows_ofMarkup s {}).1 d read⟩

end MailMarkup
