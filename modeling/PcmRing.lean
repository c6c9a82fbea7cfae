import PcmRing.StampIntegrity
import PcmRing.FifoHistory
import PcmRing.FaultVisibility
import PcmRing.MuteLifetime
import PcmRing.TaggedRetry
import PcmRing.ConcealmentBounds
import PcmRing.ConverterContent
import PcmRing.AtomicRuns
import PcmRing.ResetErasure
import PcmRing.LateMutes
import PcmRing.MuteUnion
import PcmRing.MailboxHistory
import PcmRing.CanonicalConcealment
import PcmRing.PhasePreserved
import PcmRing.ClockBounds
import PcmRing.GapQueue
import PcmRing.GapClassification
import PcmRing.UnitRender
import PcmRing.PlainRuns
import PcmRing.PlainPlayout
import PcmRing.ReachedStreams
import PcmRing.FiniteDrain
import PcmRing.PlainStreams
import PcmRing.RoundedRatios
import PcmRing.UnitSchedules
import PcmRing.BlankSchedules
import PcmRing.DescriptorRuns
import PcmRing.BlankViews
import PcmRing.MutedTwins
import PcmRing.Noninterference
import PcmRing.SilencedOutputs
import PcmRing.WorkspaceBounds
import PcmRing.PushedMutes
