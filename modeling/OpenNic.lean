import OpenNic.Program.Resumption
import OpenNic.Program.RelyGuarantee
import OpenNic.Common.BitField
import OpenNic.Qdma.Context
import OpenNic.Qdma.Queue
import OpenNic.Mailbox.Message
import OpenNic.Mailbox.PfDriver
import OpenNic.Mailbox.Isolation
import OpenNic.Mailbox.PfHandler
import OpenNic.Mailbox.Serial
import OpenNic.Mailbox.VfDriver
import OpenNic.Mailbox.VfHandler
import OpenNic.Mailbox.VfCommand
import OpenNic.Mailbox.Agreement
import OpenNic.Common.Cyclic
import OpenNic.Common.Holdings
import OpenNic.Pf.Netdev
import OpenNic.Tx.Invariant
import OpenNic.Tx.Contract
import OpenNic.Tx.PfDriver
import OpenNic.Tx.PfConservation
import OpenNic.Tx.VfDriver
import OpenNic.Tx.VfConservation
import OpenNic.Tx.VfTeardown
import OpenNic.Tx.PfOwnership
import OpenNic.Tx.PfTeardown
import OpenNic.Tx.XdpXmit
import OpenNic.Rx.XdpDriver
import OpenNic.Rx.XdpOwnership
import OpenNic.Rx.Queue
import OpenNic.Rx.VfDriver
import OpenNic.Rx.VfStream
import OpenNic.Rx.VfPages
import OpenNic.Vf.RxPages
import OpenNic.Vf.Events
import OpenNic.Vf.RxChecks
import OpenNic.Rx.PfDriver
import OpenNic.Rx.PollAgreement
import OpenNic.Qdma.Decode
import OpenNic.Vf.ConfigAgreement
import OpenNic.Qdma.FunctionMap
import OpenNic.Qdma.Footprint
import OpenNic.Sriov.PfDriver
import OpenNic.Sriov.Invariant
import OpenNic.Sriov.Table
import OpenNic.Sriov.Calls
import OpenNic.Sriov.Binding
import OpenNic.Sriov.Runs
import OpenNic.Sriov.Ranges
import OpenNic.Sriov.Teardown
import OpenNic.Sriov.PendingRequests
import OpenNic.Vf.Netdev
import OpenNic.Rx.PfNapi
import OpenNic.Rx.PfPages
import OpenNic.Rx.PfRuns
import OpenNic.Pf.Rollback
import OpenNic.Pf.Runs
import OpenNic.Pf.Probe
import OpenNic.Pf.Probing
import OpenNic.Common.Ledger
import OpenNic.Vf.Invariant
import OpenNic.Vf.Ownership
import OpenNic.Vf.Lifetime
import OpenNic.Vf.Runs
import OpenNic.Vf.Release
import OpenNic.Vf.Frames
import OpenNic.Mailbox.ConfigAddress
import OpenNic.Common.Packing
import OpenNic.Qdma.Encoding
import OpenNic.Qdma.Timeouts
import OpenNic.Tx.PfDoorbell
import OpenNic.Tx.VfWriteBack
import OpenNic.Common.Credits
import OpenNic.Rx.PfCredits
import OpenNic.Rx.VfCredits
import OpenNic.Common.ThreadedIrq
import OpenNic.Mailbox.VfInterrupt
import OpenNic.Pf.Interrupt
import OpenNic.Pf.InterruptTeardown
import OpenNic.Pf.InterruptRollback
import OpenNic.Vf.OpenRings
import OpenNic.Program.Labelled
import OpenNic.Vf.RingsInit
import OpenNic.Vf.Opening
import OpenNic.Common.RegisterFile
import OpenNic.Pf.Rxfh
import OpenNic.Pf.Live
import OpenNic.Pf.QueueLifetime
import OpenNic.Program.Critical
import OpenNic.Qdma.Serial
import OpenNic.Tx.Stream
import OpenNic.Tx.VfFlow
import OpenNic.Program.Ladder
import OpenNic.Vf.Probe
import OpenNic.Vf.Probing
import OpenNic.Mailbox.Resource
import OpenNic.Program.Parties
import OpenNic.Pf.Shell
import OpenNic.Pf.ShellRuns
import OpenNic.Pf.Steering
import OpenNic.Rx.PfLink
import OpenNic.Rx.PfStream
import OpenNic.Program.Confined
import OpenNic.Qdma.Touches
