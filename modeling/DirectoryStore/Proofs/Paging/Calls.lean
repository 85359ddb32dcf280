import DirectoryStore.Paging.PageFile
import DirectoryStore.Proofs.Outcomes

/-!
# Calls of a page file that may fail

Nothing is assumed about which calls fail, nor about what the blocks hold.  A call that
fails is counted and does nothing else, and so is one that only looks.
-/

namespace DirectoryStore

theorem Leads.onBlocks_either {α : Type} {pages : Paging.PageFile} {action : Paging.BlockM α}
    {done : α → Paging.BlockFile → Prop} {failed : Error → Paging.BlockFile → Prop}
    (leads : Leads action pages.blocks done failed) :
    Leads (Paging.PageFile.onBlocks action) pages
      (fun value pages' => pages'.header = pages.header ∧ done value pages'.blocks)
      fun error pages' => pages'.header = pages.header ∧ failed error pages'.blocks := by
  unfold Leads Paging.PageFile.onBlocks at *
  rcases ran : action pages.blocks with ⟨error | value, blocks'⟩ <;> rw [ran] at leads
  · exact ⟨rfl, leads⟩
  · exact ⟨rfl, leads⟩

theorem Keeps.onBlocks {α : Type} {holds : Paging.BlockFile → Prop} {action : Paging.BlockM α}
    (keeps : Keeps holds action) :
    Keeps (fun pages => holds pages.blocks) (Paging.PageFile.onBlocks action) :=
  fun pages => keeps pages.blocks

namespace Paging

/-- Calls were counted, and nothing else was done. -/
def Counted (file file' : BlockFile) : Prop :=
  ∃ injection, file' = { file with injection := injection }

namespace BlockFile

theorem beginCall_counts (call : Call) (file : BlockFile) :
    Leads (beginCall call) file (fun _ => Counted file) fun _ => Counted file := by
  unfold Leads beginCall
  rw [get_bind_apply]
  cases planned : file.injection.plan file.injection.callsMade ⟨0, call⟩
  · simp only [Injection.next, planned]
    exact ⟨_, rfl⟩
  · simp only [Injection.next, planned]
    exact ⟨_, rfl⟩

theorem size_counts (file : BlockFile) :
    Leads size file
      (fun found file' => found = file.handle.size file.contents ∧ Counted file file')
      fun _ => Counted file := by
  refine Leads.bind (beginCall_counts _ file) ?_
  rintro _ _ ⟨injection, rfl⟩
  exact ⟨rfl, injection, rfl⟩

theorem blockCount_counts (file : BlockFile) :
    Leads blockCount file
      (fun found file' => found = file.handle.size file.contents / file.blockSize ∧
        Counted file file')
      fun _ => Counted file := by
  refine Leads.bind (size_counts file) ?_
  rintro _ _ ⟨rfl, injection, rfl⟩
  exact ⟨rfl, injection, rfl⟩

theorem readAt_counts (offset len : Nat) (file : BlockFile) :
    Leads (readAt offset len) file
      (fun data file' => file.handle.read file.contents offset len = .ok data ∧
        Counted file file')
      fun _ => Counted file := by
  refine Leads.bind (beginCall_counts _ file) ?_
  rintro _ _ ⟨injection, rfl⟩
  apply Leads.get_bind
  split
  · exact Leads.pure ⟨‹_›, injection, rfl⟩
  · exact Leads.throw ⟨injection, rfl⟩

theorem writeAt_writes (offset : Nat) (patch : Bytes) (file : BlockFile) :
    Leads (writeAt offset patch) file
      (fun _ file' => ∃ handle contents injection,
        file.handle.write file.contents offset patch = .ok (handle, contents) ∧
          file' = { file with contents, handle, injection })
      fun _ => Counted file := by
  refine Leads.bind (beginCall_counts _ file) ?_
  rintro _ _ ⟨injection, rfl⟩
  apply Leads.get_bind
  split
  · exact ⟨_, _, injection, ‹_›, rfl⟩
  · exact Leads.throw ⟨injection, rfl⟩

def read (file : BlockFile) (block : BlockId) : Except StorageFault Bytes :=
  if file.offsetOf block < file.handle.size file.contents then
    file.handle.read file.contents (file.offsetOf block) file.blockSize
  else .ok (Bytes.zeros file.blockSize)

/-- A block that was fetched is in use, and one that was not is no more in use than before. -/
theorem fetch_holds (block : BlockId) (file : BlockFile) :
    Leads (fetch block) file
      (fun page file' => page.block = block ∧ file.read block = .ok page.data ∧
        ∃ injection, file' = { file with injection, inUse := block :: file.inUse })
      fun _ => Counted file := by
  apply Leads.get_bind
  split
  · exact Leads.throw ⟨file.injection, rfl⟩
  refine Leads.bind (size_counts file) ?_
  rintro _ _ ⟨rfl, injection, rfl⟩
  have reads : Leads
      (if file.offsetOf block < file.handle.size file.contents then
        readAt (file.offsetOf block) file.blockSize
      else Pure.pure (Bytes.zeros file.blockSize))
      { file with injection }
      (fun data file' => file.read block = .ok data ∧ Counted file file')
      fun _ => Counted file := by
    unfold read
    split
    · refine (readAt_counts _ _ _).mono (fun data file' => ?_) fun _ file' => ?_
      · rintro ⟨found, injection', rfl⟩
        exact ⟨found, injection', rfl⟩
      · rintro ⟨injection', rfl⟩
        exact ⟨injection', rfl⟩
    · exact Leads.pure ⟨rfl, injection, rfl⟩
  apply Leads.branch
  refine Leads.bind reads ?_
  rintro data _ ⟨found, injection', rfl⟩
  exact ⟨rfl, found, injection', rfl⟩

end BlockFile

end Paging

end DirectoryStore
