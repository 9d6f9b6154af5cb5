import Loadshear.LifecycleSound
import Loadshear.DrainSound
import Loadshear.CountSound
import Loadshear.ReadSound
import Loadshear.FramerSound
import Loadshear.ReconnectSound
import Loadshear.ShardSound
import Loadshear.DeliverySound
import Loadshear.IncrementSound
import Loadshear.DispatchSound
import Loadshear.PrinterSound
import Loadshear.QuietSound
import Loadshear.WASMSound
import Loadshear.ResolverSound
import Loadshear.PacketSound
import Loadshear.NotifySound
import Loadshear.OverlapSound
import Loadshear.OffsetSound
import Loadshear.NestingSound
import Loadshear.TruncationSound
import Loadshear.LastBlockSound
import Loadshear.AlignSound
import Loadshear.SampleSound
import Loadshear.DatagramSound
import Loadshear.ExpansionSound
import Loadshear.HostSound
import Loadshear.SpanSound
import Loadshear.DisplaySound
import Loadshear.WireSound
import Loadshear.ProgressSound
import Loadshear.MeteredSound
import Loadshear.PatchSound
import Loadshear.LoggerSound
import Loadshear.IsolationSound
import Loadshear.WindDownSound
import Loadshear.ServingSound
import Loadshear.ValidatorSound
import Loadshear.DryRunSound
import Loadshear.CLISound
import Loadshear.HistogramSound
import Loadshear.WiredSound
