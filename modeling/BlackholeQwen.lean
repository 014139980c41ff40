import BlackholeQwen.Prefill.Capture
import BlackholeQwen.Serving.PrefillAdmission
import BlackholeQwen.Prefix.Plan
import BlackholeQwen.Packed.Rounds
import BlackholeQwen.Verifier.SlotZero
import BlackholeQwen.Dflash.Frontiers
import BlackholeQwen.Dflash.SharedPending
import BlackholeQwen.Lib.Leases
import BlackholeQwen.Packed.Prestage
import BlackholeQwen.Serving.RunnerBridge
import BlackholeQwen.Serving.PackedRounds
import BlackholeQwen.Lib.Call
import BlackholeQwen.Lib.Runs
import BlackholeQwen.Lib.Dict
import BlackholeQwen.Lib.Greedy
import BlackholeQwen.Speculative.Lossless
import BlackholeQwen.Prefix.Ledger
import BlackholeQwen.Lib.Chunked
import BlackholeQwen.Lib.Fence
import BlackholeQwen.Gdn.Replay
import BlackholeQwen.Attention.Extent
import BlackholeQwen.Packed.Disjoint
import BlackholeQwen.Packed.Sentinel
import BlackholeQwen.Prefix.Scheduler
import BlackholeQwen.Prefix.Model
import BlackholeQwen.Prefix.Reuse
import BlackholeQwen.Serving.Quarantine
import BlackholeQwen.Prefill.Interleave
import BlackholeQwen.Prefix.Coupling
import BlackholeQwen.Parser.Rechunk
import BlackholeQwen.Packed.Chained
import BlackholeQwen.Lib.Chains
import BlackholeQwen.Serving.EarlyDraft
import BlackholeQwen.Speculative.LookupMatch
import BlackholeQwen.Attention.Family
import BlackholeQwen.Speculative.Atomic
import BlackholeQwen.Serving.Narrowing
import BlackholeQwen.Serving.Backstop
import BlackholeQwen.Serving.ParkedEngines
import BlackholeQwen.Packed.BoundTables
import BlackholeQwen.Serving.RequestContract
import BlackholeQwen.Prefix.Recall
import BlackholeQwen.Serving.PackedPolicy
import BlackholeQwen.Serving.LifecycleRuns
import BlackholeQwen.Serving.PackedContract
import BlackholeQwen.Serving.EngineArgv
import BlackholeQwen.Attention.RequestPlan
import BlackholeQwen.Attention.MaskKernel
import BlackholeQwen.Dflash.DraftLayouts
import BlackholeQwen.Dflash.SharedHead
import BlackholeQwen.Dflash.SelectionExact
import BlackholeQwen.Gdn.Coalesced
import BlackholeQwen.Parser.Merging
import BlackholeQwen.Dflash.Retention
import BlackholeQwen.Serving.Alternation
import BlackholeQwen.Dflash.StepExits
import BlackholeQwen.Serving.DraftRound
import BlackholeQwen.Mlp.Audit
import BlackholeQwen.Gdn.ConvWindows
import BlackholeQwen.Gdn.WindowRuns
import BlackholeQwen.Lib.Pages
import BlackholeQwen.Dflash.KvSlide
import BlackholeQwen.Dflash.FusedCommit
import BlackholeQwen.Gdn.CommitDma
import BlackholeQwen.Gdn.StateCopy
import BlackholeQwen.Lib.Tiles
