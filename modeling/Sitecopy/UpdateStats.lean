import Sitecopy.SiteStats
import Sitecopy.SiteUpdate

/-!
# The statistics during an update

Every turn of every pass over regular files and directories is balanced, whatever the
driver and the user answer.
-/
namespace Sitecopy.UpdateStats
open SiteModel FileSet StateProgram SiteStats SiteUpdate

variable {σ : Type} {env : Env σ} {o : SiteOptions} {file : SiteFile} {r : Run σ}

/-- A turn of a pass that balances the statistics. -/
def BalancedTurn (o : SiteOptions) (file : SiteFile) (r : Run σ)
    (m : StateM (Run σ) Outcome) : Prop :=
  Ends m r fun out r' => Balanced o file r.stats out.1 r'.stats

theorem updateDeleteFile_balanced (hc : Compared o file)
    (hf : siteStatsUpdate o r.stats = r.stats) :
    BalancedTurn o file r (updateDeleteFile env o file) := by
  unfold BalancedTurn updateDeleteFile
  simp only [ends_ite, ends_bind, ends_pure, ends_feCanUpdate, ends_call, ends_driverErr,
    ends_deleteEntry]
  split_ifs
  all_goals first
    | exact Balanced.keep hc hf
    | exact Balanced.fileDelete

theorem updateDeleteDirectory_balanced (hc : Compared o file)
    (hf : siteStatsUpdate o r.stats = r.stats) :
    BalancedTurn o file r (updateDeleteDirectory env o file) := by
  unfold BalancedTurn updateDeleteDirectory
  simp only [ends_ite, ends_bind, ends_pure, ends_feCanUpdate, ends_call, ends_driverErr,
    ends_deleteEntry]
  split_ifs
  all_goals first
    | exact Balanced.keep hc hf
    | exact Balanced.fileDelete

theorem finishDirectory_balanced (hc : Compared o file)
    (hf : siteStatsUpdate o r.stats = r.stats) (oret : ℤ) :
    BalancedTurn o file r (finishDirectory o file oret) := by
  unfold BalancedTurn finishDirectory
  simp only [ends_ite, ends_bind, ends_pure, ends_fileUploaded]
  split_ifs
  · exact Balanced.keep hc hf
  · exact Balanced.fileSetDiff ⟨rfl, rfl, rfl, rfl, rfl⟩

theorem updateCreateDirectory_balanced (hc : Compared o file)
    (hf : siteStatsUpdate o r.stats = r.stats) :
    BalancedTurn o file r (updateCreateDirectory env o file) := by
  unfold BalancedTurn updateCreateDirectory
  simp only [ends_ite, ends_bind, ends_pure, ends_feCanUpdate, ends_call, ends_driverErr]
  split_ifs
  all_goals first
    | exact Balanced.keep hc hf
    | exact finishDirectory_balanced hc (by exact hf) _

theorem updateMoveFile_balanced (hc : Compared o file)
    (hf : siteStatsUpdate o r.stats = r.stats) :
    BalancedTurn o file r (updateMoveFile env o file) := by
  unfold BalancedTurn updateMoveFile
  simp only [ends_ite, ends_bind, ends_pure, ends_feCanUpdate, ends_call, ends_driverErr,
    ends_fileUploaded]
  split_ifs
  all_goals first
    | exact Balanced.keep hc hf
    | exact Balanced.fileSetDiff ⟨rfl, rfl, rfl, rfl, rfl⟩

theorem fileChmod_balanced (hc : Compared o file) (hf : siteStatsUpdate o r.stats = r.stats) :
    Ends (fileChmod env o file) r fun out r' =>
      Balanced o file r.stats (some out.1) r'.stats := by
  unfold fileChmod
  simp only [ends_ite, ends_bind, ends_pure, ends_call, ends_driverErr, ends_setDiff]
  split_ifs
  all_goals first
    | exact Balanced.keep hc hf
    | exact Balanced.fileSetDiff ⟨rfl, rfl, rfl, rfl, rfl⟩

theorem fileRetrieveServer_balanced (hc : Compared o file)
    (hf : siteStatsUpdate o r.stats = r.stats) :
    Ends (fileRetrieveServer env o file) r fun g r' =>
      Compared o g ∧ Balanced o file r.stats (some g) r'.stats := by
  unfold fileRetrieveServer
  simp only [ends_ite, ends_bind, ends_pure, ends_call, ends_driverErr]
  split_ifs <;> exact ⟨hc, (Balanced.keep hc hf).server ⟨rfl, rfl, rfl, rfl, rfl⟩ rfl⟩

theorem finishUpload_balanced (hc : Compared o file) (hf : siteStatsUpdate o r.stats = r.stats) :
    BalancedTurn o file r (finishUpload env o file) := by
  unfold BalancedTurn finishUpload
  simp only [ends_bind, ends_pure, ends_fileUploaded]
  refine (fileChmod_balanced hc hf).mono fun out r' hb => ?_
  exact hb.trans (Balanced.fileSetDiff ⟨rfl, rfl, rfl, rfl, rfl⟩)

/-- Asking for the server's time before the upload is recorded changes nothing here. -/
theorem retrieve_finishUpload_balanced (hc : Compared o file)
    (hf : siteStatsUpdate o r.stats = r.stats) :
    Ends (fileRetrieveServer env o file) r fun g r' =>
      Ends (finishUpload env o g) r' fun out r'' =>
        Balanced o file r.stats out.1 r''.stats := by
  refine (fileRetrieveServer_balanced hc hf).mono fun g r' hg => ?_
  exact Ends.mono (finishUpload_balanced hg.1 hg.2.flags) fun out r'' hb => hg.2.trans hb

theorem finishPlainUpload_balanced (hc : Compared o file)
    (hf : siteStatsUpdate o r.stats = r.stats) :
    BalancedTurn o file r (finishPlainUpload env o file) := by
  unfold BalancedTurn finishPlainUpload
  simp only [ends_bind, ends_ite, ends_pure]
  split_ifs
  · exact retrieve_finishUpload_balanced hc hf
  · exact finishUpload_balanced hc hf

theorem uploadFile_balanced (hc : Compared o file) (hf : siteStatsUpdate o r.stats = r.stats) :
    BalancedTurn o file r (uploadFile env o file) := by
  unfold BalancedTurn uploadFile
  simp only [ends_ite, ends_bind, ends_pure, ends_call, ends_driverErr]
  split_ifs
  all_goals first
    | exact Balanced.keep hc hf
    | exact finishPlainUpload_balanced hc (by exact hf)
    | exact retrieve_finishUpload_balanced hc (by exact hf)

theorem updateNewFile_balanced (hc : Compared o file)
    (hf : siteStatsUpdate o r.stats = r.stats) :
    BalancedTurn o file r (updateNewFile env o file) := by
  unfold BalancedTurn updateNewFile
  simp only [ends_ite, ends_bind, ends_pure, ends_feCanUpdate, ends_call, ends_driverErr]
  split_ifs
  all_goals first
    | exact Balanced.keep hc hf
    | exact uploadFile_balanced hc (by exact hf)

theorem updateFile_balanced (hc : Compared o file) (hf : siteStatsUpdate o r.stats = r.stats) :
    BalancedTurn o file r (updateFile env o file) := by
  unfold BalancedTurn updateFile
  by_cases ht : file.type ≠ .file
  · rw [if_pos ht]
    exact Balanced.keep hc hf
  · rw [if_neg ht]
    cases hd : file.diff with
    | unchanged | deleted | moved => exact Balanced.keep hc hf
    | new => exact updateNewFile_balanced hc hf
    | changed =>
      simp only [ends_ite, ends_bind, ends_pure]
      split_ifs
      · exact Balanced.keep hc hf
      · exact fileChmod_balanced hc hf
      · exact updateNewFile_balanced hc hf

/-! ### The phases -/

/-- The passes of an update that concern regular files and directories. -/
inductive Phase
  | deleteFiles
  | createDirectories
  | moveFiles
  | files
  | deleteDirectories
  deriving DecidableEq, Repr

def Phase.pass (env : Env σ) (o : SiteOptions) : Phase → Pass σ
  | .deleteFiles => updateDeleteFiles env o
  | .createDirectories => updateCreateDirectories env o
  | .moveFiles => updateMoveFiles env o
  | .files => updateFiles env o
  | .deleteDirectories => updateDeleteDirectories env o

/-- The site after one phase, run with the given driver and user from the given session. -/
def runPhase (env : Env σ) (sess : σ) (p : Phase) (site : Site) : Site :=
  let r := (p.pass env site.opts site.files).run { stats := site.stats, sess := sess }
  { site with files := r.1.1, stats := r.2.stats }

theorem phase_exact (p : Phase) {addrs : List ℕ} {files : List SiteFile}
    (h : ExactList o addrs files r.stats) :
    Ends (p.pass env o files) r fun out r' => ExactList o addrs out.1 r'.stats := by
  cases p with
  | deleteFiles => exact forEach_exact Run.stats (fun _ _ => updateDeleteFile_balanced) h
  | createDirectories =>
    exact forEach_exact Run.stats (fun _ _ => updateCreateDirectory_balanced) h
  | moveFiles => exact forEach_exact Run.stats (fun _ _ => updateMoveFile_balanced) h
  | files => exact forEach_exact Run.stats (fun _ _ => updateFile_balanced) h
  | deleteDirectories =>
    exact forEachBackward_exact Run.stats (fun _ _ => updateDeleteDirectory_balanced) h

theorem runPhase_exact {site : Site} (h : ExactSite site) (sess : σ) (p : Phase) :
    ExactSite (runPhase env sess p site) :=
  h.update (phase_exact (r := { stats := site.stats, sess := sess }) p h.list)

end Sitecopy.UpdateStats
