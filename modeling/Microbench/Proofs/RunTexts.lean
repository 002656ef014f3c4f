import Microbench.Proofs.RunChecks
import Microbench.Proofs.HeaderReader
/-!
The files of one run are different texts.

A header begins with a number sign and a listing with a tab. The listing of a cycle routine has
the routine's size in its third line, behind a text that all routines of a run share, and no
digit comes after it.
-/
namespace Microbench
open Text Target

theorem symbol_unlabelled (start : String) (number : Nat) :
    endsInColon (".globl " ++ symbolName start number).toList = false := by
  rw [symbolName, ← String.append_assoc]
  exact colon_number _ number

namespace CycleFamily

def front (family : CycleFamily) : String :=
  "\t.text\n" ++ "\n" ++ "\t.align 2" ++ "\n" ++ "\t.globl " ++ family.symbolStart

theorem statements_begin (family : CycleFamily) (chain : Chain) : ∃ behind,
    family.statements chain =
      .directive (.align 2) :: .directive (.global (family.symbol chain.size)) :: behind := by
  obtain ⟨⟨architecture, abi⟩, start⟩ := family
  cases architecture <;> exact ⟨_, rfl⟩

theorem listing_render (family : CycleFamily) (routine : Routine) :
    (family.listing routine).render =
      "\t.text\n" ++ "\n" ++ unlines (routine.lines.map Indent.laid) := by
  rw [listing, Listing.push, Listing.render, Listing.empty, List.nil_append, List.foldl_cons,
    List.foldl_nil, Indent.appendLines_laid]
  rfl

theorem listing_begins (family : CycleFamily) {size : Nat} {stream rest : Random.Stream}
    {routine : Routine} (accepted : sizeFault? size = none)
    (drawn : family.generate size stream = (.ok routine, rest)) : ∃ behind,
      (family.listing routine).render = family.front ++ (toString size ++ ("\n" ++ behind)) := by
  obtain ⟨chain, full, made⟩ := family.generated_over_chain size accepted stream
  rw [drawn] at made
  obtain ⟨behind, begun⟩ := family.statements_begin chain
  rw [full] at begun
  have global : Indent.laid (".globl " ++ family.symbol size) =
      "\t.globl " ++ family.symbolStart ++ toString size := by
    rw [Indent.laid, symbol, symbol_unlabelled, symbolName]
    simp [← String.append_assoc]
  have lines : routine.lines =
      ".align 2" :: (".globl " ++ family.symbol size) :: behind.map Statement.text := by
    rw [Except.ok.inj made, Routine.lines, begun]
    rfl
  have align : Indent.laid ".align 2" = "\t.align 2" := by decide
  have begins : routine.lines.map Indent.laid = "\t.align 2" ::
      ("\t.globl " ++ family.symbolStart ++ toString size) ::
      (behind.map Statement.text).map Indent.laid := by
    rw [lines, List.map_cons, List.map_cons, align, global]
  refine ⟨unlines ((behind.map Statement.text).map Indent.laid), ?_⟩
  rw [listing_render, begins, unlines_cons, unlines_cons, front]
  simp only [String.append_assoc]

theorem number_of_text (front first second : String) {small large : Nat}
    (same : front ++ (toString small ++ ("\n" ++ first)) =
      front ++ (toString large ++ ("\n" ++ second))) : small = large := by
  -- the number ends at the first character that is no digit, so it can be read off
  have ended (number : Nat) : '\n' ∉ Nat.toDigits 10 number := by
    intro member
    cases digit_of_mem number '\n' member
  have texts (number : Nat) (rest : String) : (toString number ++ ("\n" ++ rest)).toList =
      Nat.toDigits 10 number ++ '\n' :: rest.toList := by
    simp
  have behind : Nat.toDigits 10 small ++ '\n' :: first.toList =
      Nat.toDigits 10 large ++ '\n' :: second.toList := by
    rw [← texts, ← texts]
    exact congrArg String.toList (String.append_right_inj front |>.mp same)
  have pieces := congrArg (Text.pieces '\n') behind
  rw [pieces_append '\n' _ _ (ended small), pieces_append '\n' _ _ (ended large)] at pieces
  exact digits_injective small large (List.cons.inj pieces).1

theorem files_begin (family : CycleFamily) (name : Nat → String) {stream : Random.Stream}
    {sizes : List Nat} {routines : List Routine} (draws : family.Draws stream sizes routines)
    (accepted : ∀ size ∈ sizes, sizeFault? size = none) :
    ∀ file ∈ family.files name sizes routines, ∃ size ∈ sizes, ∃ behind,
      file.2 = family.front ++ (toString size ++ ("\n" ++ behind)) := by
  induction draws with
  | nil stream => simp [files]
  | @cons _ _ size routine sizes routines first others ih =>
      intro file member
      rcases List.mem_cons.mp member with rfl | member
      · obtain ⟨behind, text⟩ := family.listing_begins (accepted size List.mem_cons_self) first
        exact ⟨size, List.mem_cons_self, behind, text⟩
      · obtain ⟨later, inside, text⟩ :=
          ih (fun other inside => accepted other (List.mem_cons_of_mem size inside)) file member
        exact ⟨later, List.mem_cons_of_mem size inside, text⟩

theorem files_differ (family : CycleFamily) (name : Nat → String) {stream : Random.Stream}
    {sizes : List Nat} {routines : List Routine} (draws : family.Draws stream sizes routines)
    (accepted : ∀ size ∈ sizes, sizeFault? size = none) (different : sizes.Nodup) :
    (family.files name sizes routines).Pairwise fun first second => first.2 ≠ second.2 := by
  induction draws with
  | nil stream => exact List.Pairwise.nil
  | @cons _ _ size routine sizes routines first others ih =>
      obtain ⟨fresh, different⟩ := List.nodup_cons.mp different
      have later := fun other inside => accepted other (List.mem_cons_of_mem size inside)
      refine List.Pairwise.cons ?_ (ih later different)
      intro file member same
      obtain ⟨behind, text⟩ := family.listing_begins (accepted size List.mem_cons_self) first
      obtain ⟨other, inside, behind', text'⟩ := family.files_begin name others later file member
      have texts := text.symm.trans (same.trans text')
      exact fresh (number_of_text _ _ _ texts ▸ inside)

end CycleFamily

theorem head_append {front : String} {mark : Char} (back : String)
    (begins : front.toList.head? = some mark) : (front ++ back).toList.head? = some mark := by
  rw [String.toList_append, List.head?_append, begins, Option.some_or]

theorem front_tabbed (family : CycleFamily) : family.front.toList.head? = some '\t' :=
  head_append _ (head_append _ (head_append _ (head_append _ (head_append _ (by decide)))))

theorem table_marked (table : FunctionTable) : table.render.toList.head? = some '#' := by
  rw [Declarations.render_written, Declarations.written]
  simp only [List.cons_append, unlines_cons]
  exact head_append _ (head_append _ (head_append _ (head_append _ (by decide))))

theorem listing_tabbed (target : Target) (routines : List Routine) :
    (Listing.mk target.fileHeader routines).render.toList.head? = some '\t' := by
  -- lines are only ever added behind the first one, which is indented
  have kept (written : String) (tabbed : written.toList.head? = some '\t') :
      (routines.foldl (fun written routine =>
        Indent.appendLines {} (written ++ "\n") routine.lines) written).toList.head? =
          some '\t' := by
    induction routines generalizing written with
    | nil => exact tabbed
    | cons routine rest ih =>
        apply ih
        show (Indent.appendLines {} (written ++ "\n") routine.lines).toList.head? = some '\t'
        rw [Indent.appendLines_laid]
        exact head_append _ (head_append _ tabbed)
  apply kept
  show (Indent.appendLines {} "" [".text"]).toList.head? = some '\t'
  decide

namespace Run

/-- The files of a run are different texts. -/
theorem texts_differ {request : Request} {found : Settings} {chance : UInt64}
    {directory : String} {files : List (String × String)}
    (promises : request.Promises found chance directory files) :
    files.Pairwise fun first second => first.2 ≠ second.2 := by
  have unlike (listing table : String) (unmarked : listing.toList.head? = some '\t')
      (marked : table.toList.head? = some '#') : listing ≠ table := by
    rintro rfl
    rw [unmarked] at marked
    cases marked
  cases request with
  | multiplies given =>
      obtain ⟨_, target, listing, _, produced, rfl⟩ := promises
      have tabbed : listing.render.toList.head? = some '\t' := by
        simp only [MultiplyFamily.produce] at produced
        split at produced
        · cases produced
        · cases produced
          exact listing_tabbed target _
      simpa using unlike listing.render _ tabbed (table_marked _)
  | cycles given =>
      obtain ⟨_, bounded, target, routines, _, draws, rfl⟩ := promises
      have allowed := (sizesForExponent_iff _ _).mpr ⟨bounded, rfl⟩
      have accepted := sizes_accepted allowed
      have different := (CycleFamily.sizes_powers _ _ allowed).2.1.imp Nat.ne_of_lt
      refine List.pairwise_append.mpr ⟨CycleFamily.files_differ _ _ draws accepted different, ?_, ?_⟩
      · split <;> simp
      · intro file member header requested
        obtain ⟨_, _, behind, text⟩ := CycleFamily.files_begin _ _ draws accepted file member
        have tabbed : file.2.toList.head? = some '\t' := text ▸ head_append _ (front_tabbed _)
        split at requested
        · cases List.mem_singleton.mp requested
          exact unlike file.2 _ tabbed (table_marked _)
        · cases requested

end Run

end Microbench
