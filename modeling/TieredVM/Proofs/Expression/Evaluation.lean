import TieredVM.Proofs.Expression.Verified
import TieredVM.Proofs.Verify.CallGraph
set_option autoImplicit false

namespace TieredVM

namespace Evaluation

variable {α β : Type}

def Defined (x : Evaluation α) : Prop := ∃ result, x.run = some result

/-- The second evaluation ends as the first one does, if that ends. -/
def Within (x y : Evaluation α) : Prop := ∀ result, x.run = some result → y.run = some result

section Bind

variable {x y : Evaluation α} {f g : α → Evaluation β}

theorem bind_eq_none (h : x.run = none) : (x >>= f).run = none := by
  simp [ExceptT.run_bind, h]

theorem bind_eq_throw {zero : ZeroDivision} (h : x.run = some (.error zero)) :
    x >>= f = throw zero := by
  apply ExceptT.ext
  simp [ExceptT.run_bind, h]

theorem bind_eq_apply {a : α} (h : x.run = some (.ok a)) : x >>= f = f a := by
  apply ExceptT.ext
  simp [ExceptT.run_bind, h]

theorem defined_pure (a : α) : Defined (pure a) := ⟨.ok a, rfl⟩

theorem defined_throw (zero : ZeroDivision) : Defined (throw zero : Evaluation α) :=
  ⟨.error zero, rfl⟩

theorem Defined.bind (h : Defined x) (hf : ∀ a, Defined (f a)) : Defined (x >>= f) := by
  obtain ⟨result, hresult⟩ := h
  cases result with
  | error zero =>
    rw [bind_eq_throw hresult]
    exact defined_throw zero
  | ok a =>
    rw [bind_eq_apply hresult]
    exact hf a

theorem Within.refl (x : Evaluation α) : Within x x := fun _ => id

theorem Within.bind (h : Within x y) (hf : ∀ a, Within (f a) (g a)) :
    Within (x >>= f) (y >>= g) := by
  cases hx : x.run with
  | none =>
    intro result hresult
    rw [bind_eq_none hx] at hresult
    cases hresult
  | some first =>
    have hy := h first hx
    cases first with
    | error zero =>
      rw [bind_eq_throw hx, bind_eq_throw hy]
      exact .refl _
    | ok a =>
      rw [bind_eq_apply hx, bind_eq_apply hy]
      exact hf a

end Bind

end Evaluation

namespace Expr

open Evaluation

variable {call call' : Nat → List Int64 → Evaluation Int64} {function : String} {args : List Int64}

mutual

theorem eval_within (h : ∀ callee values, Within (call callee values) (call' callee values)) :
    ∀ (e : Expr) (offset : Nat),
      Within (e.eval call function args offset) (e.eval call' function args offset)
  | .constant _, _ | .argument _, _ => .refl _
  | .binary _ left right, _ =>
    (eval_within h left _).bind fun _ => (eval_within h right _).bind fun _ => .refl _
  | .call callee operands, _ => (evalAll_within h operands _).bind fun values => h callee values

theorem evalAll_within (h : ∀ callee values, Within (call callee values) (call' callee values)) :
    ∀ (operands : List Expr) (offset : Nat),
      Within (evalAll call function args operands offset)
        (evalAll call' function args operands offset)
  | [], _ => .refl _
  | operand :: operands, _ =>
    (eval_within h operand _).bind fun _ => (evalAll_within h operands _).bind fun _ => .refl _

end

theorem evalAll_defined {operands : List Expr}
    (h : ∀ operand ∈ operands, ∀ offset, Defined (operand.eval call function args offset))
    (offset : Nat) : Defined (evalAll call function args operands offset) := by
  induction operands generalizing offset with
  | nil => exact defined_pure _
  | cons operand operands ih =>
    have hrest := ih fun other hother => h other (List.mem_cons_of_mem _ hother)
    exact (h operand List.mem_cons_self offset).bind fun value =>
      (hrest _).bind fun values => defined_pure _

theorem Scoped.eval_defined {arity? : Nat → Option Nat} {argCount : Nat} {e : Expr}
    (h : e.Scoped arity? argCount)
    (hcalls : ∀ callee count values, (arity? callee).isSome → callee < 2 ^ 63 →
      Instruction.call (Word.ofIndex callee) count ∈ e.emit → Defined (call callee values))
    (offset : Nat) : Defined (e.eval call function args offset) := by
  induction h generalizing offset with
  | constant value => exact defined_pure _
  | argument => exact defined_pure _
  | binary op _ _ ihl ihr =>
    have hleft := ihl fun callee count values harity hsmall hmem =>
      hcalls callee count values harity hsmall (by simp [emit, hmem])
    have hright := ihr fun callee count values harity hsmall hmem =>
      hcalls callee count values harity hsmall (by simp [emit, hmem])
    refine (hleft _).bind fun a => (hright _).bind fun b => ?_
    cases op.denote a b with
    | none => exact defined_throw _
    | some value => exact defined_pure _
  | @call callee operands harity hsmall _ _ ih =>
    have hoperands : ∀ operand ∈ operands, ∀ offset,
        Defined (operand.eval call function args offset) := by
      intro operand hoperand
      refine ih operand hoperand fun callee count values harity hsmall hmem =>
        hcalls callee count values harity hsmall ?_
      rw [emit, emitAll_eq_flatMap]
      exact List.mem_append_left _ (List.mem_flatMap_of_mem hoperand hmem)
    refine (evalAll_defined hoperands offset).bind fun values => ?_
    exact hcalls callee (Word.ofIndex operands.length) values (by simp [harity]) hsmall
      (by simp [emit])

end Expr

namespace Image

open Evaluation

variable {image : Image} {bodies : Nat → Expr} {program : Program}

theorem evaluate_within {nesting nesting' : Nat} (h : nesting ≤ nesting') (id : Nat)
    (args : List Int64) :
    Within (image.evaluate bodies nesting id args) (image.evaluate bodies nesting' id args) := by
  induction nesting generalizing nesting' id args with
  | zero => exact fun _ hnone => by cases hnone
  | succ nesting ih =>
    obtain ⟨nesting', rfl⟩ := Nat.exists_eq_add_of_lt h
    simp only [evaluate]
    cases image.function? id with
    | none => exact .refl _
    | some entry => exact Expr.eval_within (fun callee values => ih (by omega) callee values) _ _

namespace Expresses

theorem calls_iff (h : image.Expresses bodies) (hverify : image.verify = .ok program)
    {caller callee : Nat} : program.Calls caller callee ↔
      ∃ entry ∈ image.functions, entry.id = caller ∧ callee < 2 ^ 63 ∧
        ∃ count, Instruction.call (Word.ofIndex callee) count ∈ (bodies caller).emit := by
  constructor
  · rintro ⟨function, offset, word, count, hfunction, hitem, hcallee⟩
    obtain ⟨⟨entry, hentry, hcheck⟩, hid⟩ := (function?_of_verify h.ids hverify).1 hfunction
    rw [h.check hentry, Except.ok.injEq] at hcheck
    subst hcheck
    obtain rfl : entry.id = caller := hid
    refine ⟨entry, hentry, rfl, Word.lt_of_toIndex? hcallee, count, ?_⟩
    have hcode : ((bodies entry.id).toFunction entry).code = (bodies entry.id).code :=
      h.code entry hentry
    rw [hcode, Expr.ofCode_code] at hitem
    rw [Word.ofIndex_of_toIndex? hcallee]
    simpa using Listing.mem_of_mem_items hitem
  · rintro ⟨entry, hentry, rfl, hsmall, count, hmem⟩
    obtain ⟨offset, hitem⟩ := Listing.exists_mem_items (List.mem_append_left [.ret] hmem) 0
    rw [← Expr.ofCode_code, ← h.code entry hentry] at hitem
    exact ⟨_, offset, _, count, h.function?_eq hverify hentry, hitem, Word.toIndex?_ofIndex hsmall⟩

/-- Without recursion, every call comes to an end when there is room for as many calls inside each
other as there are functions below it. -/
theorem evaluate_defined (h : image.Expresses bodies) (hverify : image.verify = .ok program)
    (hacyclic : program.Acyclic) {nesting : Nat} {entry : FunctionEntry}
    (hentry : entry ∈ image.functions) (hroom : (program.below entry.id).card < nesting)
    (args : List Int64) : Defined (image.evaluate bodies nesting entry.id args) := by
  induction nesting generalizing entry args with
  | zero => exact absurd hroom (Nat.not_lt_zero _)
  | succ nesting ih =>
    have hfound := h.lookup_iff.2 ⟨hentry, rfl⟩
    simp only [evaluate, hfound]
    refine (h.inScope entry hentry).eval_defined ?_ 0
    intro callee count values harity hsmall hmem
    obtain ⟨target, htarget⟩ := Option.isSome_iff_exists.1 (Option.isSome_map ▸ harity)
    obtain ⟨hmem', rfl⟩ := h.lookup_iff.1 htarget
    have hlisted := h.function?_eq hverify hmem'
    have hlt : target.id < program.functions.size := (Array.getElem?_eq_some_iff.1 hlisted).1
    have hcalls := (h.calls_iff hverify).2 ⟨entry, hentry, rfl, hsmall, count, hmem⟩
    have hcard := hacyclic.card_below_lt_of_calls hcalls hlt
    exact ih hmem' (by omega) values

end Expresses
end Image
end TieredVM
