import WindbgMcp.KdTarget.Rendezvous
import WindbgMcp.KdTarget.Compatibility
import WindbgMcp.KdWire.Delivery
import WindbgMcp.KdWire.Progress
import WindbgMcp.Batch.Certification
import WindbgMcp.Batch.Outcomes
import WindbgMcp.Batch.Deadlines
import WindbgMcp.Batch.Rollback
import WindbgMcp.Batch.Containment
import WindbgMcp.Batch.Validation
import WindbgMcp.Driver.Exhaustion
import WindbgMcp.Driver.Recipe
import WindbgMcp.Walk.Chain
import WindbgMcp.KdConn.Redaction
import WindbgMcp.KdConn.Resolution
import WindbgMcp.KdConn.Masked
import WindbgMcp.Correlate.Unwinding
import WindbgMcp.CodeWalk.Accounting
import WindbgMcp.CodeWalk.Budgets
import WindbgMcp.PoolTrace.Pairing
import WindbgMcp.PoolTrace.Completion
import WindbgMcp.Engine.Shutdown
import WindbgMcp.Engine.Reservations
import WindbgMcp.Engine.Isolation
import WindbgMcp.Engine.Withheld
import WindbgMcp.Listen.Ownership
import WindbgMcp.Listen.Revocation
import WindbgMcp.Listen.Credentials
import WindbgMcp.Listen.Accepted
import WindbgMcp.SecureKernel.Translation
import WindbgMcp.Ioctl.Edges
import WindbgMcp.Ioctl.WalkOrder
import WindbgMcp.Ioctl.Joining
import WindbgMcp.Ioctl.Chain
import WindbgMcp.SkControl.Turns
import WindbgMcp.SkControl.Agreement
import WindbgMcp.LiveSource.Framing
import WindbgMcp.SkServiceTrace.Shared
import WindbgMcp.SkServiceTrace.Accounting
import WindbgMcp.SkServiceTrace.Loop
import WindbgMcp.LogBridge.Paging
import WindbgMcp.LogBridge.Drops
import WindbgMcp.Record.Leaks
import WindbgMcp.Batch.Interpolation
import WindbgMcp.Server.ModuleFilter
import WindbgMcp.Server.Quotes
import WindbgMcp.Server.Toolset
import WindbgMcp.SecurityDescriptor.Confinement
import WindbgMcp.Engine.StopsKept
import WindbgMcp.Engine.Teardown
import WindbgMcp.SkJoin.Claims
import WindbgMcp.SkJoin.Order
import WindbgMcp.Fault.Scan
import WindbgMcp.Cast.Terminal
import WindbgMcp.Cast.Timeline
import WindbgMcp.SkDispatch.Rollback
import WindbgMcp.SkLive.Suppression
import WindbgMcp.SkPolicy.Launch
import WindbgMcp.Hazards.Attribution
import WindbgMcp.Ioctl.Survival
import WindbgMcp.Record.Civil
import WindbgMcp.SavedState.Values
