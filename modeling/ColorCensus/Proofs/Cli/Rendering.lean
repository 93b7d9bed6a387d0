import ColorCensus.Proofs.Cli.Outcome
import ColorCensus.Proofs.Report

namespace ColorCensus

open Text

variable {fs : FileSystem} {source : AllowList.Source} {root : Text} {r : Report}

namespace Census

theorem exists_take_of_takeStandard (h : (takeStandard fs source root).result = .ok r) :
    ∃ properties, (take fs properties root).result = .ok r := by
  unfold takeStandard at h
  split at h
  · cases h
  · exact ⟨_, h⟩

theorem nodup_colors (h : (takeStandard fs source root).result = .ok r) : (r.rows.map Prod.fst).Nodup := by
  obtain ⟨properties, ht⟩ := exists_take_of_takeStandard h
  obtain ⟨start, sheets, -, -, hr⟩ := take_isCensus ht
  exact (r.rows_perm.map Prod.fst).nodup_iff.mpr hr.keysDistinct

theorem isCell_colors (h : (takeStandard fs source root).result = .ok r) :
    ∀ row ∈ r.rows, Table.IsCell row.1 := by
  obtain ⟨properties, ht⟩ := exists_take_of_takeStandard h
  obtain ⟨start, sheets, -, -, hr⟩ := take_isCensus ht
  intro row hrow
  exact Color.isCell_of_normalize (hr.canonical _ (List.mem_map_of_mem (r.rows_perm.mem_iff.mp hrow)))

end Census

namespace Cli

theorem run_renders {files : FileSystem} {program : Text}
    (h : (Census.takeStandard files ⟨program, none⟩ root).result = .ok r) :
    (r.rows.map Prod.fst).Nodup ∧ (r.rows.map Prod.snd).sum = r.total ∧ r.rows.length = r.uniqueCount ∧
    ∀ (i : Invocation) options, i.files = files → i.program = program → IsCall i.arguments options →
      IsRoot options i.input root →
      (run i).status = 0 ∧ ∃ printed, (run i).stdout = asked options ++ printed ∧
        (options.json = true → r.IsDocument printed) ∧ (options.json = false → r.IsTabulated printed) := by
  refine ⟨Census.nodup_colors h, r.sum_rows, r.rows_length, ?_⟩
  rintro i options rfl rfl hcall hroot
  have hr : Reports i options r := ⟨root, hroot, h⟩
  obtain ⟨hstatus, hstdout⟩ := respond_of_reports hr
  rw [run_of_isCall hcall]
  refine ⟨hstatus, r.printed options.json, hstdout, fun hj => ?_, fun hj => ?_⟩
  · rw [hj]
    exact r.isDocument_printed
  · rw [hj]
    exact Report.isTabulated_printed (Census.isCell_colors h)

theorem run_renders_sample :
    ∃ printed, (run sampleInvocation).stdout = printed ∧
      (⟨2, [("rgb(255, 0, 0)", 4), ("rgb(0, 0, 255)", 2)]⟩ : Report).IsTabulated printed := by
  have h : (Census.takeStandard sampleInvocation.files ⟨sampleInvocation.program, none⟩ ".").result =
      .ok ⟨2, [("rgb(255, 0, 0)", 4), ("rgb(0, 0, 255)", 2)]⟩ := by decide +kernel
  have hcall : IsCall sampleInvocation.arguments ⟨some ".", false, false⟩ :=
    Request.eq_census_iff.mp (by decide)
  obtain ⟨-, printed, hs, -, ht⟩ := (run_renders h).2.2.2 sampleInvocation _ rfl rfl hcall (.given rfl)
  exact ⟨printed, hs, ht rfl⟩

end Cli

end ColorCensus
