import Vllm.Core.Arrivals
import Vllm.Core.SlidingHit
import Vllm.Core.GroupSlots
import Vllm.Sched.WaitingOrder
import Vllm.Sched.Progress
import Vllm.Sched.SlotRuns
import Vllm.Sched.EncoderGather
import Vllm.Sched.AlignDrafts
import Vllm.Unified.Rollback
import Vllm.Unified.Views
import Vllm.Offload.Failures
import Vllm.Eplb.Exchange
import Vllm.Multimodal.Mirror
import Vllm.Multimodal.ShmCounts
import Vllm.Lora.Slots
import Vllm.Attention.VirtualBatches
import Vllm.Worker.SlotMapping
import Vllm.Engine.Detokenizer
import Vllm.Utils.Cache
